import Elyra.Python.Utf16

set_option autoImplicit false

/-! # Records of directory changes

`ReadDirectoryChangesBackend.parse_native_records`: the buffer of `ReadDirectoryChangesW` is a list of
records, each with the distance to the next one. A read that would leave the buffer ends the model with
an error of its own, which does not occur; what the kernel has written is read back. -/

namespace Elyra.Monitor

open Elyra.Python

/-- What ends the parser. -/
inductive NativeError where
  | osError (text : PyStr)
  /-- A read past the end of the buffer: a `struct.error`, or a slice that Python would cut off. -/
  | outside
  deriving DecidableEq, Repr

structure NotifyHeader where
  nextOffset : Nat
  action : Nat
  filenameLength : Nat
  deriving DecidableEq, Repr

/-- `struct.unpack_from("<III", buffer, offset)` -/
def unpackHeader (buffer : Bytes) (offset : Nat) : Except NativeError NotifyHeader :=
  match unpackAt 4 buffer offset, unpackAt 4 buffer (offset + 4), unpackAt 4 buffer (offset + 8) with
  | some nextOffset, some action, some filenameLength => .ok ⟨nextOffset, action, filenameLength⟩
  | _, _, _ => .error .outside

/-- `buffer[offset:offset + size]`, if it is inside the buffer. -/
def sliceOf (buffer : Bytes) (offset size : Nat) : Except NativeError Bytes :=
  if offset + size ≤ buffer.length then .ok (slice buffer offset size) else .error .outside

/-- `.decode("utf-16-le", "strict")` -/
def decodeName (raw : Bytes) : Except NativeError PyStr :=
  match decodeUtf16 raw with
  | some name => .ok name
  | none => .error (.osError (py "invalid UTF-16 filename from Windows notification"))

/-- The record at an offset and the distance to the next one. -/
def readRecord (buffer : Bytes) (offset : Nat) : Except NativeError (Nat × Nat × PyStr) := do
  if buffer.length - offset < 12 then
    throw (.osError (py "truncated FILE_NOTIFY_INFORMATION header"))
  let header ← unpackHeader buffer offset
  if header.filenameLength % 2 ≠ 0 ∨ buffer.length < offset + 12 + header.filenameLength then
    throw (.osError (py "invalid FILE_NOTIFY_INFORMATION filename length"))
  let raw ← sliceOf buffer (offset + 12) header.filenameLength
  let filename ← decodeName raw
  return (header.nextOffset, header.action, filename)

/-- The loop of `parse_native_records`, from an offset on. -/
def parseNativeFrom (buffer : Bytes) (offset : Nat) : Except NativeError (List (Nat × PyStr)) :=
  if offset < buffer.length then
    match readRecord buffer offset with
    | .error e => .error e
    | .ok (nextOffset, record) =>
        if nextOffset = 0 then .ok [record]
        else if nextOffset < 12 ∨ buffer.length < offset + nextOffset then
          .error (.osError (py "invalid FILE_NOTIFY_INFORMATION next offset"))
        else (parseNativeFrom buffer (offset + nextOffset)).map (record :: ·)
  else .ok []
termination_by buffer.length - offset

/-- `parse_native_records` -/
def parseNativeRecords (buffer : Bytes) : Except NativeError (List (Nat × PyStr)) :=
  parseNativeFrom buffer 0

/-! ## Any buffer -/

variable {buffer : Bytes} {offset : Nat}

theorem unpackHeader_of_le (h : offset + 12 ≤ buffer.length) :
    ∃ header, unpackHeader buffer offset = .ok header := by
  unfold unpackHeader
  rw [unpackAt_of_le (by omega), unpackAt_of_le (by omega), unpackAt_of_le (by omega)]
  exact ⟨_, rfl⟩

theorem readRecord_inside : readRecord buffer offset ≠ .error .outside := by
  unfold readRecord
  by_cases hshort : buffer.length - offset < 12
  · simp only [if_pos hshort, bind, Except.bind, throw, throwThe, MonadExceptOf.throw]
    exact nofun
  · have hinside : offset + 12 ≤ buffer.length := by omega
    obtain ⟨header, hheader⟩ := unpackHeader_of_le hinside
    by_cases hlength : header.filenameLength % 2 ≠ 0 ∨
        buffer.length < offset + 12 + header.filenameLength
    · simp only [bind, Except.bind, pure, Except.pure, if_neg hshort, hheader, if_pos hlength]
      exact nofun
    · have hslice : sliceOf buffer (offset + 12) header.filenameLength = .ok _ :=
        if_pos (by omega)
      simp only [bind, Except.bind, pure, Except.pure, if_neg hshort, hheader, if_neg hlength, hslice]
      unfold decodeName
      cases decodeUtf16 (slice buffer (offset + 12) header.filenameLength) <;> exact nofun

theorem parseNativeFrom_inside (buffer : Bytes) (offset : Nat) :
    parseNativeFrom buffer offset ≠ .error .outside := by
  fun_induction parseNativeFrom buffer offset with
  | case1 offset hoffset e herror =>
      rintro ⟨⟩
      exact readRecord_inside herror
  | case2 => exact nofun
  | case3 => exact nofun
  | case4 offset hoffset nextOffset record hread hnext hrange ih =>
      intro h
      cases hrest : parseNativeFrom buffer (offset + nextOffset) with
      | ok records =>
          rw [hrest] at h
          cases h
      | error e =>
          rw [hrest] at h
          cases h
          exact ih hrest
  | case5 => exact nofun

/-! ## What the kernel writes -/

/-- A notification with its encoded name. -/
structure NotifyRecord where
  action : Nat
  name : PyStr
  encoded : Bytes
  action_lt : action < 256 ^ 4
  encodes : encodeUtf16 name = some encoded
  length_lt : encoded.length < 256 ^ 4

/-- A notification before another one, with the octets between them. -/
structure PaddedRecord extends NotifyRecord where
  padding : Bytes
  next_lt : 12 + encoded.length + padding.length < 256 ^ 4

namespace NotifyRecord

/-- `(action, filename)` -/
def pair (r : NotifyRecord) : Nat × PyStr := (r.action, r.name)

/-- The record with a distance to the next one. -/
def encode (r : NotifyRecord) (nextOffset : Nat) : Bytes :=
  toLE 4 nextOffset ++ (toLE 4 r.action ++ (toLE 4 r.encoded.length ++ r.encoded))

theorem encode_length (r : NotifyRecord) (nextOffset : Nat) :
    (r.encode nextOffset).length = 12 + r.encoded.length := by
  simp only [encode, List.length_append, toLE_length]
  omega

/-- A record is read back anywhere in a buffer. -/
theorem readRecord_encode (r : NotifyRecord) {nextOffset : Nat} (hnext : nextOffset < 256 ^ 4)
    (before after : Bytes) :
    readRecord (before ++ (r.encode nextOffset ++ after)) before.length =
      .ok (nextOffset, r.pair) := by
  have hlen : (before ++ (r.encode nextOffset ++ after)).length =
      before.length + (12 + r.encoded.length) + after.length := by
    rw [List.length_append, List.length_append, r.encode_length]
    omega
  have hsplit : r.encode nextOffset ++ after = toLE 4 nextOffset ++ (toLE 4 r.action ++
      (toLE 4 r.encoded.length ++ (r.encoded ++ after))) := by
    simp only [encode, List.append_assoc]
  have hfirst := unpackAt_toLE before
    (toLE 4 r.action ++ (toLE 4 r.encoded.length ++ (r.encoded ++ after))) hnext rfl
  have hsecond := unpackAt_toLE (before ++ toLE 4 nextOffset)
    (toLE 4 r.encoded.length ++ (r.encoded ++ after)) r.action_lt rfl
  have hthird := unpackAt_toLE (before ++ toLE 4 nextOffset ++ toLE 4 r.action)
    (r.encoded ++ after) r.length_lt rfl
  simp only [List.append_assoc, List.length_append, toLE_length, ← hsplit] at hfirst hsecond hthird
  have hheader : unpackHeader (before ++ (r.encode nextOffset ++ after)) before.length =
      .ok ⟨nextOffset, r.action, r.encoded.length⟩ := by
    unfold unpackHeader
    rw [hfirst, hsecond, hthird]
  have hname : slice (before ++ (r.encode nextOffset ++ after)) (before.length + 12)
      r.encoded.length = r.encoded := by
    have hpre : (before ++ (toLE 4 nextOffset ++ (toLE 4 r.action ++
        toLE 4 r.encoded.length))).length = before.length + 12 := by
      simp only [List.length_append, toLE_length]
    have hdata : before ++ (r.encode nextOffset ++ after) =
        (before ++ (toLE 4 nextOffset ++ (toLE 4 r.action ++ toLE 4 r.encoded.length))) ++
          (r.encoded ++ after) := by
      simp only [encode, List.append_assoc]
    rw [slice, hdata, ← hpre, List.drop_left, List.take_left]
  have hshort : ¬ (before ++ (r.encode nextOffset ++ after)).length - before.length < 12 := by omega
  have hlength : ¬ (r.encoded.length % 2 ≠ 0 ∨ (before ++ (r.encode nextOffset ++ after)).length <
      before.length + 12 + r.encoded.length) := by
    have heven := encodeUtf16_even r.encodes
    omega
  have hslice : sliceOf (before ++ (r.encode nextOffset ++ after)) (before.length + 12)
      r.encoded.length = .ok r.encoded := by
    rw [sliceOf, if_pos (by omega), hname]
  have hdecode : decodeName r.encoded = .ok r.name := by
    unfold decodeName
    rw [decodeUtf16_encodeUtf16 r.encodes]
  unfold readRecord
  simp only [bind, Except.bind, pure, Except.pure, if_neg hshort, hheader, if_neg hlength, hslice,
    hdecode]
  rfl

end NotifyRecord

/-- The record with the distance over its padding. -/
def PaddedRecord.encode (r : PaddedRecord) : Bytes :=
  r.toNotifyRecord.encode (12 + r.encoded.length + r.padding.length) ++ r.padding

/-- A buffer: its last record has no next one. -/
def encodeBuffer (initial : List PaddedRecord) (last : NotifyRecord) (trailing : Bytes) : Bytes :=
  initial.flatMap PaddedRecord.encode ++ (last.encode 0 ++ trailing)

theorem parseNativeFrom_encode (before : Bytes) (initial : List PaddedRecord) (last : NotifyRecord)
    (trailing : Bytes) :
    parseNativeFrom (before ++ encodeBuffer initial last trailing) before.length =
      .ok (initial.map (fun r => r.pair) ++ [last.pair]) := by
  induction initial generalizing before with
  | nil =>
      have hread := last.readRecord_encode (show 0 < 256 ^ 4 by decide) before trailing
      have hinside : before.length < (before ++ (last.encode 0 ++ trailing)).length := by
        rw [List.length_append, List.length_append, last.encode_length]
        omega
      rw [encodeBuffer, List.flatMap_nil, List.nil_append, parseNativeFrom, if_pos hinside, hread]
      rfl
  | cons r initial ih =>
      have hbuffer : before ++ encodeBuffer (r :: initial) last trailing =
          before ++ (r.toNotifyRecord.encode (12 + r.encoded.length + r.padding.length) ++
            (r.padding ++ encodeBuffer initial last trailing)) := by
        simp only [encodeBuffer, List.flatMap_cons, PaddedRecord.encode, List.append_assoc]
      have hread := r.readRecord_encode r.next_lt before (r.padding ++ encodeBuffer initial last trailing)
      have hrest := ih (before ++ r.encode)
      have hsame : before ++ r.encode ++ encodeBuffer initial last trailing =
          before ++ encodeBuffer (r :: initial) last trailing := by
        simp only [encodeBuffer, List.flatMap_cons, List.append_assoc]
      have hlength : (before ++ r.encode).length =
          before.length + (12 + r.encoded.length + r.padding.length) := by
        rw [List.length_append, PaddedRecord.encode, List.length_append, r.encode_length]
      rw [hsame, hlength] at hrest
      have htotal := congrArg List.length hsame
      rw [List.length_append, hlength] at htotal
      rw [← hbuffer] at hread
      rw [parseNativeFrom, if_pos (by omega), hread]
      simp only
      rw [if_neg (by omega), if_neg (by omega), hrest]
      rfl

/-- **Parsing a buffer of directory changes.** Any buffer gives records or an `OSError`, and nothing
    outside it is read; what the kernel writes is read back. -/
theorem parse_native_records_spec :
    (∀ buffer, (∃ records, parseNativeRecords buffer = .ok records) ∨
      ∃ text, parseNativeRecords buffer = .error (.osError text)) ∧
    ∀ initial last trailing, parseNativeRecords (encodeBuffer initial last trailing) =
      .ok (initial.map (fun r => r.pair) ++ [last.pair]) := by
  constructor
  · intro buffer
    cases hparse : parseNativeRecords buffer with
    | ok records => exact .inl ⟨records, rfl⟩
    | error e =>
        cases e with
        | osError text => exact .inr ⟨text, rfl⟩
        | outside => exact absurd hparse (parseNativeFrom_inside buffer 0)
  · exact parseNativeFrom_encode []

end Elyra.Monitor
