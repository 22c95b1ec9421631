set_option autoImplicit false

/-! The `NV_STATUS` codes returned by the modelled functions. -/

namespace NvidiaGpu

inductive NvStatus
  | nvOk
  | nvErrUvmAddressInUse
  | nvErrNoMemory
  | nvErrInvalidArgument
  | nvErrInUse
  | nvErrInvalidParamStruct
  | nvErrBusyRetry
  | nvErrInvalidState
  | nvWarnNothingToDo
  | nvErrNotReady
  | nvErrInvalidData
  | nvErrGeneric
  | nvErrObjectNotFound
  | nvErrInvalidPointer
  | nvErrInsertDuplicateName
  deriving DecidableEq, Repr

end NvidiaGpu
