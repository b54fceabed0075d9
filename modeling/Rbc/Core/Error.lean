namespace Rbc

/-- `rbc_error`: the library's own codes and the portable codes of `errno.h`.
What the system returns is cast to this type unchecked, so other codes occur. -/
inductive Error
  | ok | unknown | notImplemented | addressFamilyNotSupported | addressInUse
  | addressNotAvailable | alreadyConnected | argumentListTooLong | argumentOutOfDomain
  | badAddress | badFileDescriptor | badMessage | brokenPipe | connectionAborted
  | connectionAlreadyInProgress | connectionRefused | connectionReset | crossDeviceLink
  | destinationAddressRequired | deviceOrResourceBusy | directoryNotEmpty | executableFormatError
  | fileExists | fileTooLarge | filenameTooLong | functionNotSupported | hostUnreachable
  | identifierRemoved | illegalByteSequence | inappropriateIoControlOperation | interrupted
  | invalidArgument | invalidSeek | ioError | isADirectory | messageSize | networkDown
  | networkReset | networkUnreachable | noBufferSpace | noChildProcess | noLink | noLockAvailable
  | noMessage | noProtocolOption | noSpaceOnDevice | noSuchDeviceOrAddress | noSuchDevice
  | noSuchFileOrDirectory | noSuchProcess | notADirectory | notASocket | notConnected
  | notEnoughMemory | notSupported | operationCanceled | operationInProgress
  | operationNotPermitted | operationNotSupported | operationWouldBlock | ownerDead
  | permissionDenied | protocolError | protocolNotSupported | readOnlyFileSystem
  | resourceDeadlockWouldOccur | resourceUnavailableTryAgain | resultOutOfRange
  | stateNotRecoverable | textFileBusy | timedOut | tooManyFilesOpenInSystem | tooManyFilesOpen
  | tooManyLinks | tooManySymbolicLinkLevels | valueTooLarge | wrongProtocolType
  | unlisted (code : Int)
  deriving DecidableEq, Repr

end Rbc
