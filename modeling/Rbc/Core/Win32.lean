import Rbc.Core.Error

namespace Rbc

/-- The thread library that `rbc/sync` is built on. -/
inductive Backend
  | pthreads | win32
  deriving DecidableEq, Repr

/-- The codes of `GetLastError` that `error.c` distinguishes, and all others. -/
inductive LastError
  | success | fileNotFound | pathNotFound | badNetpath | devNotExist | netnameDeleted
  | badNetName | invalidName | modNotFound | badPathname | tooManyOpenFiles
  | noMoreSearchHandles | accessDenied | networkAccessDenied | invalidHandle | notEnoughMemory
  | outofmemory | invalidData | seek | sectorNotFound | invalidParameter | negativeSeek
  | badArguments | invalidFlagNumber | metaExpansionTooLong | invalidSignalNumber
  | thread1Inactive | invalidEaName | eaListInconsistent | invalidDrive | badUnit | writeProtect
  | crc | writeFault | readFault | unexpNetErr | netWriteFault | openFailed | lockFailed
  | sharingViolation | lockViolation | networkBusy | busyDrive | pathBusy | signalPending | busy
  | pipeBusy | sharingBufferExceeded | handleDiskFull | diskFull | notSupported | badNetResp
  | callNotImplemented | fileExists | alreadyExists | cannotMake | noProcSlots | brokenPipe
  | badPipe | noData | pipeNotConnected | bufferOverflow | labelTooLong | filenameExcedRange
  | insufficientBuffer | waitNoChildren | dirNotEmpty | atomicLocksNotSupported
  | invalidExeSignature | exeMarkedInvalid | badExeFormat | iteratedDataExceeds64k
  | invalidMinallocsize | ioplNotEnabled | invalidSegdpl | autodatasegExceeds64k
  | relocChainXeedsSeglim | infloopInRelocChain | exeMachineTypeMismatch | fileTooLarge
  | waitTimeout | deviceSupportInProgress | tooManyPosts
  | other (code : UInt32)
  deriving DecidableEq, Repr

/-- `rbc_error_from_get_last_error`, where the compiler is not GCC-like. -/
def Error.fromGetLastError : LastError → Error
  | .success => .ok
  | .fileNotFound | .pathNotFound | .badNetpath | .devNotExist | .netnameDeleted | .badNetName
  | .invalidName | .modNotFound | .badPathname => .noSuchFileOrDirectory
  | .tooManyOpenFiles | .noMoreSearchHandles => .tooManyFilesOpenInSystem
  | .accessDenied | .networkAccessDenied => .permissionDenied
  | .invalidHandle => .badFileDescriptor
  | .notEnoughMemory | .outofmemory => .notEnoughMemory
  | .invalidData | .seek | .sectorNotFound | .invalidParameter | .negativeSeek | .badArguments
  | .invalidFlagNumber | .metaExpansionTooLong | .invalidSignalNumber | .thread1Inactive
  | .invalidEaName | .eaListInconsistent => .invalidArgument
  | .invalidDrive | .badUnit => .noSuchDevice
  | .writeProtect => .readOnlyFileSystem
  | .crc | .writeFault | .readFault | .unexpNetErr | .netWriteFault | .openFailed | .lockFailed => .ioError
  | .sharingViolation | .lockViolation | .networkBusy | .busyDrive | .pathBusy | .signalPending
  | .busy | .pipeBusy => .deviceOrResourceBusy
  | .sharingBufferExceeded => .noLockAvailable
  | .handleDiskFull | .diskFull => .noSpaceOnDevice
  | .notSupported | .badNetResp | .callNotImplemented => .functionNotSupported
  | .fileExists | .alreadyExists => .fileExists
  | .cannotMake => .operationNotPermitted
  | .noProcSlots => .resourceUnavailableTryAgain
  | .brokenPipe | .badPipe | .noData | .pipeNotConnected => .brokenPipe
  | .bufferOverflow | .labelTooLong | .filenameExcedRange => .filenameTooLong
  | .insufficientBuffer => .noBufferSpace
  | .waitNoChildren => .noChildProcess
  | .dirNotEmpty => .directoryNotEmpty
  | .atomicLocksNotSupported => .notSupported
  | .invalidExeSignature | .exeMarkedInvalid | .badExeFormat | .iteratedDataExceeds64k
  | .invalidMinallocsize | .ioplNotEnabled | .invalidSegdpl | .autodatasegExceeds64k
  | .relocChainXeedsSeglim | .infloopInRelocChain | .exeMachineTypeMismatch => .executableFormatError
  | .fileTooLarge => .fileTooLarge
  | .waitTimeout => .timedOut
  | .deviceSupportInProgress => .operationInProgress
  | .tooManyPosts => .valueTooLarge
  | .other _ => .unknown

theorem Error.fromGetLastError_ne {e : LastError} (isError : e ≠ .success) : Error.fromGetLastError e ≠ .ok := by
  cases e <;> simp_all [Error.fromGetLastError]

theorem Error.fromGetLastError_eq_ok_iff {e : LastError} : Error.fromGetLastError e = .ok ↔ e = .success := by
  constructor
  · intro fine
    exact Decidable.byContradiction fun isError => Error.fromGetLastError_ne isError fine
  · rintro rfl
    rfl

theorem Error.fromGetLastError_eq_timedOut_iff {e : LastError} :
    Error.fromGetLastError e = .timedOut ↔ e = .waitTimeout := by
  cases e <;> simp [Error.fromGetLastError]

/-- `RBC_SYNC_CHECK_LAST_ERROR`. Where `RBC_OS_WIN` is defined, 0 is a failure, whatever function
was called. -/
def checkLastError (windows : Bool) (err : Int) (errno : Error) (lastError : LastError) : Error :=
  if windows then
    if err ≠ 0 then .ok else .fromGetLastError lastError
  else
    if err ≠ 0 then errno else .ok

/-- What `WaitForSingleObject` returns. -/
inductive WaitResult
  | object0 | abandoned | timeout | failed
  deriving DecidableEq, Repr

end Rbc
