import Rbc.Basis.CString
import Rbc.Utils.BoundedBuffer

namespace Rbc

open CString

/-- Which names of `errno.h` the target has one number for. -/
structure Errnos where
  notSupportedIsOperationNotSupported : Bool
  tryAgainIsWouldBlock : Bool

namespace Error

/-- The bytes of a string literal. -/
def literal (s : String) : List UInt8 := s.toByteArray.data.toList

/-- The `switch` of `rbc_error_to_string`. -/
def description : Error → String
  | .unknown => "Unknown error"
  | .notImplemented => "Not implemented"
  | .ok => "Ok"
  | .addressFamilyNotSupported => "Address family not supported"
  | .addressInUse => "Address in use"
  | .addressNotAvailable => "Address not available"
  | .alreadyConnected => "Socket is connected"
  | .argumentListTooLong => "Argument list too long"
  | .argumentOutOfDomain => "Mathematics argument out of domain of function"
  | .badAddress => "Bad address"
  | .badFileDescriptor => "Bad file descriptor"
  | .badMessage => "Bad message"
  | .brokenPipe => "Broken pipe"
  | .connectionAborted => "Connection aborted"
  | .connectionAlreadyInProgress => "Connection already in progress"
  | .connectionRefused => "Connection refused"
  | .connectionReset => "Connection reset"
  | .crossDeviceLink => "Improper link"
  | .destinationAddressRequired => "Destination address required"
  | .deviceOrResourceBusy => "Device or resource busy"
  | .directoryNotEmpty => "Directory not empty"
  | .executableFormatError => "Executable file format error"
  | .fileExists => "File exists"
  | .fileTooLarge => "File too large"
  | .filenameTooLong => "Filename too long"
  | .functionNotSupported => "Function not supported"
  | .hostUnreachable => "Host is unreachable"
  | .identifierRemoved => "Identifier removed"
  | .illegalByteSequence => "Illegal byte sequence"
  | .inappropriateIoControlOperation => "Inappropriate I/O control operation"
  | .interrupted => "Interrupted function call"
  | .invalidArgument => "Invalid argument"
  | .invalidSeek => "Invalid seek"
  | .ioError => "Input/output error"
  | .isADirectory => "Is a directory"
  | .messageSize => "Message too long"
  | .networkDown => "Network is down"
  | .networkReset => "Connection aborted by network"
  | .networkUnreachable => "Network unreachable"
  | .noBufferSpace => "No buffer space available"
  | .noChildProcess => "No child processes"
  | .noLink => "Link has been severed"
  | .noLockAvailable => "No locks available"
  | .noMessage => "No message of the desired type"
  | .noProtocolOption => "Protocol not available"
  | .noSpaceOnDevice => "No space left on device"
  | .noSuchDeviceOrAddress => "No such device or address"
  | .noSuchDevice => "No such device"
  | .noSuchFileOrDirectory => "No such file or directory"
  | .noSuchProcess => "No such process"
  | .notADirectory => "Not a directory"
  | .notASocket => "Not a socket"
  | .notConnected => "The socket is not connected"
  | .notEnoughMemory => "Not enough space"
  | .operationCanceled => "Operation canceled"
  | .operationInProgress => "Operation in progress"
  | .operationNotPermitted => "Operation not permitted"
  | .operationNotSupported => "Operation not supported on socket"
  | .operationWouldBlock => "Operation would block"
  | .ownerDead => "Owner died"
  | .permissionDenied => "Permission denied"
  | .protocolError => "Protocol error"
  | .protocolNotSupported => "Protocol not supported"
  | .readOnlyFileSystem => "Read-only filesystem"
  | .resourceDeadlockWouldOccur => "Resource deadlock would occur"
  | .resultOutOfRange => "Result too large"
  | .stateNotRecoverable => "State not recoverable"
  | .textFileBusy => "Text file busy"
  | .timedOut => "Connection timed out"
  | .tooManyFilesOpenInSystem => "Too many open files in system"
  | .tooManyFilesOpen => "Too many open files"
  | .tooManyLinks => "Too many links"
  | .tooManySymbolicLinkLevels => "Too many levels of symbolic links"
  | .valueTooLarge => "Value too large to be stored in data type"
  | .wrongProtocolType => "Protocol wrong type for socket"
  | _ => "Undefined error"

def toString (os : Errnos) (error : Error) : List UInt8 :=
  if error = .notSupported || os.notSupportedIsOperationNotSupported && error = .operationNotSupported then
    literal "Operation not supported"
  else if error = .resourceUnavailableTryAgain || os.tryAgainIsWouldBlock && error = .operationWouldBlock then
    literal "Resource unavailable, try again"
  else
    literal error.description

/-- `rbc_error_to_string_s`, and the memory that the call leaves; `buf` may be NULL. -/
def toStringS (os : Errnos) (buf : Option Nat) (size : Nat) (error : Error) (memory : Memory) : Bool × Memory :=
  match buf with
  | none => (false, memory)
  | some buf =>
    if size = 0 then
      (false, memory)
    else
      let desc := error.toString os
      let len := strlen desc
      if len < size then
        let memory := memory.write buf (desc.take len)
        (true, Function.update memory (buf + len) 0)
      else if size ≤ 3 then
        (false, memory)
      else
        let copyLen := size - 4
        let memory := memory.write buf (desc.take copyLen)
        let buf := buf + copyLen
        let memory := Function.update memory buf 46
        let memory := Function.update memory (buf + 1) 46
        let memory := Function.update memory (buf + 2) 46
        let memory := Function.update memory (buf + 3) 0
        (true, memory)

def printable (c : UInt8) : Bool := 32 ≤ c ∧ c < 127

theorem nonzero_of_printable {s : List UInt8} (visible : s.all printable = true) : ∀ c ∈ s, c ≠ 0 := by
  intro c member
  have shows := List.all_eq_true.mp visible c member
  rintro rfl
  cases shows

theorem printable_description (error : Error) : (literal error.description).all printable = true := by
  cases error <;> rfl

/-- Every message is a string of printable characters. -/
theorem printable_toString (os : Errnos) (error : Error) : (error.toString os).all printable = true := by
  unfold toString
  split
  · rfl
  split
  · rfl
  · exact printable_description error

theorem nonzero_toString (os : Errnos) (error : Error) : ∀ c ∈ error.toString os, c ≠ 0 :=
  nonzero_of_printable (printable_toString os error)

end Error

/-- What is stored behind stored characters continues them. -/
theorem Memory.write_append (memory : Memory) (first : Nat) (front back : List UInt8) :
    memory.write first (front ++ back) = (memory.write first front).write (first + front.length) back := by
  induction front generalizing memory first with
  | nil => rw [List.nil_append, Memory.write_nil, List.length_nil, Nat.add_zero]
  | cons c front ih =>
    rw [List.cons_append, Memory.write_cons, Memory.write_cons, ih, List.length_cons, Nat.add_assoc, Nat.add_comm 1]

/-- Stored characters with a NUL behind them are a string. -/
theorem Memory.isString_write (memory : Memory) (first : Nat) {s : List UInt8} (nonzero : ∀ c ∈ s, c ≠ 0) :
    IsString (memory.write first (s ++ [0])) first s := by
  refine ⟨?_, ?_, nonzero⟩
  · intro i inside
    rw [Memory.write_inside (by rw [List.length_append]; omega), List.getElem_append_left inside]
  · rw [Memory.write_inside (by simp), List.getElem_append_right le_rfl]
    simp

namespace Error

/-- The end of a message that was cut off. -/
def dots : List UInt8 := [46, 46, 46]

/-- What stands in a buffer of `size` bytes for a message that does not fit. -/
def shortened (size : Nat) (desc : List UInt8) : List UInt8 := desc.take (size - 4) ++ dots

variable {os : Errnos} {error : Error} {buf size : Nat} {memory : Memory}

/-- A call stores the message if it fits, its beginning with three dots if there is room for
these, and nothing otherwise. -/
theorem toStringS_eq (nonempty : 0 < size) :
    toStringS os (some buf) size error memory =
      if (error.toString os).length < size then (true, memory.write buf (error.toString os ++ [0]))
      else if size ≤ 3 then (false, memory)
      else (true, memory.write buf (shortened size (error.toString os) ++ [0])) := by
  have length := strlen_eq (nonzero_toString os error)
  simp only [toStringS, if_neg nonempty.ne', length, List.take_length]
  split
  · rw [Memory.write_append, Memory.write_cons, Memory.write_nil]
  split
  · rfl
  · rename_i long wide
    have cut : ((error.toString os).take (size - 4)).length = size - 4 := by
      rw [List.length_take]
      omega
    rw [shortened, dots, Memory.write_append, Memory.write_append, List.length_append, cut]
    simp only [Memory.write_cons, Memory.write_nil]
    rfl

/-- What the caller of `rbc_error_to_string_s` is promised about a buffer: it holds a string, the
message or its beginning, and nothing else has changed. -/
structure Delivered (desc : List UInt8) (buf size : Nat) (before after : Memory) (s : List UInt8) : Prop where
  text : IsString after buf s
  inside : s.length < size
  whole : desc.length < size → s = desc
  cut : size ≤ desc.length → 3 < size → s = shortened size desc
  untouched : ∀ a, a < buf ∨ buf + s.length < a → after a = before a

theorem Delivered.of_write {desc s : List UInt8} (nonzero : ∀ c ∈ s, c ≠ 0) (inside : s.length < size)
    (whole : desc.length < size → s = desc) (cut : size ≤ desc.length → 3 < size → s = shortened size desc) :
    Delivered desc buf size memory (memory.write buf (s ++ [0])) s := by
  refine ⟨memory.isString_write buf nonzero, inside, whole, cut, ?_⟩
  intro a outside
  refine Memory.write_outside ?_
  rw [List.length_append, List.length_singleton]
  omega

theorem length_shortened {desc : List UInt8} (wide : 3 < size) (long : size ≤ desc.length) :
    (shortened size desc).length + 1 = size := by
  rw [shortened, List.length_append, List.length_take, dots, List.length_cons, List.length_cons, List.length_singleton]
  omega

theorem nonzero_shortened {desc : List UInt8} (nonzero : ∀ c ∈ desc, c ≠ 0) (size : Nat) :
    ∀ c ∈ shortened size desc, c ≠ 0 := by
  intro c member
  rcases List.mem_append.mp member with front | back
  · exact nonzero c (List.mem_of_mem_take front)
  · exact nonzero_of_printable (s := dots) rfl c back

/-- A buffer of one to three bytes that is too small is left as it was, so it holds a string
only if it held one before. -/
theorem toStringS_delivers_iff (os : Errnos) (error : Error) (buf size : Nat) (memory : Memory) (nonempty : 0 < size) :
    (∃ s, Delivered (error.toString os) buf size memory (toStringS os (some buf) size error memory).2 s) ↔
      (error.toString os).length < size ∨ 3 < size ∨ Terminated memory buf size := by
  have nonzero := nonzero_toString os error
  rw [toStringS_eq nonempty]
  by_cases fits : (error.toString os).length < size
  · rw [if_pos fits]
    refine iff_of_true ⟨_, Delivered.of_write nonzero fits (fun _ => rfl) ?_⟩ (Or.inl fits)
    intro long
    omega
  rw [if_neg fits]
  by_cases narrow : size ≤ 3
  · rw [if_pos narrow]
    constructor
    · rintro ⟨s, delivered⟩
      exact Or.inr (Or.inr (delivered.text.terminated delivered.inside))
    · rintro (small | wide | ends)
      · exact absurd small fits
      · omega
      · obtain ⟨s, inside, text⟩ := IsString.exists_of_terminated ends
        refine ⟨s, text, inside, fun small => absurd small fits, ?_, fun _ _ => rfl⟩
        intro _ wide
        omega
  · rw [if_neg narrow]
    have length := length_shortened (not_le.mp narrow) (not_lt.mp fits)
    refine iff_of_true ⟨_, Delivered.of_write (nonzero_shortened nonzero size) (by omega) ?_ fun _ _ => rfl⟩
      (Or.inr (Or.inl (not_le.mp narrow)))
    intro small
    exact absurd small fits

/-- A message that is cut off, in a buffer of eight bytes. -/
theorem toStringS_delivers_iff_cut :
    (∃ s, Delivered (toString ⟨true, true⟩ .timedOut) 40 8 (fun _ => 7)
      (toStringS ⟨true, true⟩ (some 40) 8 .timedOut (fun _ => 7)).2 s) ↔
        (toString ⟨true, true⟩ .timedOut).length < 8 ∨ 3 < 8 ∨ Terminated (fun _ => 7) 40 8 :=
  toStringS_delivers_iff ⟨true, true⟩ .timedOut 40 8 (fun _ => 7) (by decide)

/-- Two bytes are too small for the shortest message, and stay without a NUL. -/
theorem two_bytes_not_delivered :
    ¬∃ s, Delivered (toString ⟨true, true⟩ .ok) 0 2 (fun _ => 7)
      (toStringS ⟨true, true⟩ (some 0) 2 .ok (fun _ => 7)).2 s := by
  rintro ⟨s, delivered⟩
  have kept : (toStringS ⟨true, true⟩ (some 0) 2 .ok (fun _ => 7)).2 = fun _ => 7 := rfl
  have nul := delivered.text.nul
  rw [kept] at nul
  have zero : (7 : UInt8) = 0 := nul
  exact absurd zero (by decide)

/-- The buffer holds all of the message, with its NUL. -/
def Stored (desc : List UInt8) (buf : Option Nat) (size : Nat) (memory : Memory) : Prop :=
  ∃ p, buf = some p ∧ desc.length < size ∧ IsString memory p desc

/-- The result tells whether the message was stored, except where it was cut off. -/
theorem toStringS_truthful_iff (os : Errnos) (error : Error) (buf : Option Nat) (size : Nat) (memory : Memory) :
    ((toStringS os buf size error memory).1 = true ↔
      Stored (error.toString os) buf size (toStringS os buf size error memory).2) ↔
      ¬(buf.isSome ∧ 3 < size ∧ size ≤ (error.toString os).length) := by
  have unstored {memory : Memory} (long : size ≤ (error.toString os).length) :
      ¬Stored (error.toString os) buf size memory := by
    rintro ⟨_, _, inside, _⟩
    omega
  cases buf with
  | none =>
    refine iff_of_true (iff_of_false Bool.false_ne_true ?_) (by simp)
    rintro ⟨_, null, _⟩
    cases null
  | some buf =>
    rcases Nat.eq_zero_or_pos size with rfl | nonempty
    · exact iff_of_true (iff_of_false Bool.false_ne_true (unstored (Nat.zero_le _))) (by simp)
    rw [toStringS_eq nonempty]
    by_cases fits : (error.toString os).length < size
    · rw [if_pos fits]
      have stored := memory.isString_write buf (nonzero_toString os error)
      exact iff_of_true (iff_of_true rfl ⟨buf, rfl, fits, stored⟩) (by omega)
    rw [if_neg fits]
    by_cases narrow : size ≤ 3
    · rw [if_pos narrow]
      exact iff_of_true (iff_of_false Bool.false_ne_true (unstored (not_lt.mp fits))) (by omega)
    · rw [if_neg narrow]
      refine iff_of_false (fun truthful => unstored (not_lt.mp fits) (truthful.mp rfl)) (not_not.mpr ?_)
      exact ⟨rfl, not_le.mp narrow, not_lt.mp fits⟩

/-- A message that is cut off is reported as stored. -/
theorem cut_reported_as_stored :
    ¬((toStringS ⟨true, true⟩ (some 0) 5 .timedOut (fun _ => 7)).1 = true ↔
      Stored (toString ⟨true, true⟩ .timedOut) (some 0) 5 (toStringS ⟨true, true⟩ (some 0) 5 .timedOut (fun _ => 7)).2) := by
  rintro ⟨reports, _⟩
  obtain ⟨_, _, inside, _⟩ := reports (by decide)
  exact absurd inside (by decide)

end Error

end Rbc
