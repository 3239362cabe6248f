import Elyra.Python.JsonNesting
import Elyra.Service.IpcServer

set_option autoImplicit false

/-! # Which lines get an answer

`_process_line` answers whatever the handler does. What can leave it is what `decode_request_line` does
not catch of `json.loads`, and what `group_ids` does not catch of `os.getgrouplist`: a request line may
nest deeper than the interpreter's limit on recursion, or contain an integer with more digits than `int`
takes, within the 64 KiB that a line may have; and a peer may run under a group that is negative as the
server unpacks it. -/

namespace Elyra.Service

open Elyra.Python

variable {σ F : Type} [PyFloat F]

def scanExc : ScanError → LoadsExc
  | .jsonDecodeError => .jsonDecodeError
  | .valueError => .valueError
  | .recursionError => .recursionError

/-- `json.loads` in an interpreter that lets it nest `limit` containers. -/
def jsonLoadsWithin (limit : Nat) : Loads F := fun text => (loadsWithin limit text).mapError scanExc

/-- A line on which `json.loads` raises something else than `JSONDecodeError`. -/
def OverrunningLine (F : Type) [PyFloat F] (limit : Nat) (line : Bytes) : Prop :=
  line.length ≤ maxRequestBytes ∧
    ∃ text e, decodeUtf8 line = some text ∧ e ≠ .jsonDecodeError ∧ Overruns F limit text e

theorem jsonLoadsWithin_raised_iff {limit : Nat} {text : PyStr} :
    (∃ e, jsonLoadsWithin (F := F) limit text = .error e ∧ e ≠ .jsonDecodeError) ↔
      ∃ e, e ≠ .jsonDecodeError ∧ Overruns F limit text e := by
  constructor
  · rintro ⟨e, h, hne⟩
    unfold jsonLoadsWithin at h
    cases hloads : loadsWithin (F := F) limit text with
    | ok v =>
        rw [hloads] at h
        cases h
    | error e' =>
        rw [hloads] at h
        cases h
        have he' : e' ≠ .jsonDecodeError := by
          rintro rfl
          exact hne rfl
        exact ⟨e', he', (loadsWithin_error_iff he').1 hloads⟩
  · rintro ⟨e, hne, h⟩
    refine ⟨scanExc e, ?_, ?_⟩
    · rw [jsonLoadsWithin, (loadsWithin_error_iff hne).2 h]
      rfl
    · cases e with
      | jsonDecodeError => exact absurd rfl hne
      | valueError => nofun
      | recursionError => nofun

/-- Decoding a line is left by an exception of `json.loads` only. -/
theorem decodeRequestLine_raised_iff {parse : Loads F} {line : Bytes} :
    (∃ e, decodeRequestLine parse line = .error (.raised e)) ↔
      line ≠ [] ∧ line.length ≤ maxRequestBytes ∧
        ∃ text, decodeUtf8 line = some text ∧ ∃ e, parse text = .error e ∧ e ≠ .jsonDecodeError := by
  unfold decodeRequestLine
  by_cases hnil : line = []
  · simp [hnil]
  by_cases hlen : line.length > maxRequestBytes
  · simp [hnil, hlen]
  rw [if_neg hnil, if_neg hlen]
  cases htext : decodeUtf8 line with
  | none => simp
  | some text =>
      simp only [Option.some.injEq, exists_eq_left']
      refine Iff.trans ?_ (and_iff_right hnil).symm
      refine Iff.trans ?_ (and_iff_right (Nat.not_lt.1 hlen)).symm
      cases hparse : parse text with
      | ok v =>
          dsimp only
          cases validateRequestObject v <;> simp
      | error e => cases e <;> simp

/-- The scan of the line overruns the parser exactly if something else than a `ProtocolError` leaves its
    decoding. -/
theorem decodeRequestLine_overruns_iff {limit : Nat} {line : Bytes} :
    (∃ e, decodeRequestLine (jsonLoadsWithin (F := F) limit) line = .error (.raised e)) ↔
      OverrunningLine F limit line := by
  rw [decodeRequestLine_raised_iff]
  constructor
  · rintro ⟨-, hlen, text, htext, hraised⟩
    obtain ⟨e, hne, h⟩ := jsonLoadsWithin_raised_iff.1 hraised
    exact ⟨hlen, text, e, htext, hne, h⟩
  · rintro ⟨hlen, text, e, htext, hne, h⟩
    refine ⟨?_, hlen, text, htext, jsonLoadsWithin_raised_iff.2 ⟨e, hne, h⟩⟩
    -- nothing is wrong with the empty text but that it is no value
    rintro rfl
    obtain rfl : [] = text := by simpa [decodeUtf8] using htext
    have hloads := (loadsWithin_error_iff (F := F) hne).2 h
    exact hne (Except.error.inj hloads).symm

/-- A line with a request for a sensitive action, from a peer whose groups cannot be listed. -/
def UnlistedLine (F : Type) [PyFloat F] (limit : Nat) (db : Accounts) (r : Requester) (line : Bytes) :
    Prop :=
  r.Unlisted db ∧ ∃ request : RequestMessage F,
    decodeRequestLine (jsonLoadsWithin limit) line = .ok request ∧ request.action.level = .sensitive

omit [PyFloat F] in
/-- What leaves the processing of a request has left the authoriser. -/
theorem processRequest_raised_iff (db : Accounts) (handler : Handler σ F) (request : RequestMessage F)
    (r : Requester) (s : σ) :
    (∃ e, (processRequest db handler request r s).1 = .error e) ↔
      request.action.level = .sensitive ∧ r.Unlisted db := by
  rw [← authorize_overflow_iff]
  unfold processRequest
  cases authorize db r request.action with
  | error e => cases e <;> simp
  | ok u =>
      cases handler request.action request.params r s with
      | mk result s' => cases result <;> simp

/-- What leaves `_process_line`. -/
theorem processLine_raised_iff {limit : Nat} (db : Accounts) (handler : Handler σ F) (r : Requester)
    (line : Bytes) (s : σ) :
    (∃ e, (processLine (jsonLoadsWithin limit) db handler r line s).1 = .error e) ↔
      OverrunningLine F limit line ∨ UnlistedLine F limit db r line := by
  rw [← decodeRequestLine_overruns_iff]
  unfold processLine UnlistedLine
  cases decodeRequestLine (jsonLoadsWithin (F := F) limit) line with
  | error e => cases e <;> simp
  | ok request =>
      simp only [reduceCtorEq, exists_false, false_or, Except.ok.injEq, exists_eq_left']
      rw [processRequest_raised_iff, and_comm]

theorem takeDigits_ones (n : Nat) :
    takeDigits (List.replicate n 49) = (List.replicate n 49, []) := by
  induction n with
  | zero => rfl
  | succ n ih =>
      rw [List.replicate_succ, takeDigits, ih]
      rfl

theorem longInt_ones {n : Nat} (h : maxStrDigits ≤ n) : LongInt (List.replicate (n + 1) 49) := by
  refine ⟨⟨false, List.replicate (n + 1) 49, [], [], []⟩, ?_, rfl, rfl, ?_⟩
  · simp [List.replicate_succ, lexNumber, lexUnsigned, lexNat, takeDigits_ones, lexFrac, lexExp]
  · rw [List.length_replicate]
    exact Nat.lt_succ_of_le h

/-- An integer of 4301 digits. -/
def longInteger : PyStr := List.replicate (maxStrDigits + 1) 49

theorem longInteger_overruns (limit : Nat) : Overruns F limit longInteger .valueError := by
  have hskip : skipWs longInteger = longInteger := skipWs_cons (by decide) _
  exact ⟨.value, limit, _, _, .start, .value, .long (hskip ▸ longInt_ones le_rfl)⟩

end Elyra.Service
