import Elyra.Posix.Environment
import Elyra.Quarantine.Steps

set_option autoImplicit false

/-! # Copying by pieces

`_copy_between_fds` with its two loops: the source is read in pieces of any size, and each piece is written
in pieces of any size. A write may accept nothing, and any call may fail. The manager takes the copy as one
read and a loop of writes (`copyBetweenFds`); what it returns there is what it returns here
(`copyBetweenFds_of_pieces`). -/

namespace Elyra.Quarantine

open Elyra.Python Elyra.Posix Elyra.Posix.Program

/-! ## The calls -/

inductive CopyCall where
  /-- `os.lseek(fd, 0, os.SEEK_SET)`. -/
  | rewind (fd : Nat)
  /-- `os.read(fd, n)`. -/
  | read (fd n : Nat)
  /-- `os.write(fd, data)`. -/
  | write (fd : Nat) (data : Bytes)

def CopyCall.Answer : CopyCall → Type
  | .rewind _ => Unit
  | .read _ _ => Bytes
  | .write _ _ => Int

def copying : Interface where
  Call := CopyCall
  Answer := CopyCall.Answer
  Failure := Errno

abbrev CopyProg (α : Type) := Program copying Exc α

/-- A call that raises when it fails. -/
def perform (c : CopyCall) : CopyProg c.Answer :=
  .call c fun
    | .ok a => .done a
    | .error e => .raise (.os e)

/-! ## The loops -/

/-- `_COPY_CHUNK_SIZE`. -/
def copyChunkSize : Nat := 1024 * 1024

/-- `while view: ...`; the `OSError` of a short write has no number. -/
def writeView (fd : Nat) (view : Bytes) : CopyProg Unit :=
  if view = [] then .done ()
  else .call (.write fd view) fun
    | .error e => .raise (.os e)
    | .ok (written : Int) =>
        if written ≤ 0 then .raise (.os (.other 0))
        else writeView fd (view.drop written.toNat)
termination_by view.length
decreasing_by
  have hpos : 0 < view.length := List.length_pos_iff.2 ‹_›
  rw [List.length_drop]
  omega

/-- `while True: ...`; `none` where the source has not come to its end after so many reads. `digest` is
    what the hash has been updated with. -/
def copyLoop (source destination : Nat) : Nat → Bytes → Nat → CopyProg (Option (PyStr × Nat))
  | 0, _, _ => .done none
  | reads + 1, digest, total => do
      let chunk : Bytes ← perform (.read source copyChunkSize)
      if chunk = [] then do
        let _ ← perform (.rewind source)
        return some (sha256 digest, total)
      else do
        writeView destination chunk
        copyLoop source destination reads (digest ++ chunk) (total + chunk.length)

/-- `_copy_between_fds`, where it reads at most so many times. -/
def copyPieces (reads source destination : Nat) : CopyProg (Option (PyStr × Nat)) := do
  let _ ← perform (.rewind source)
  copyLoop source destination reads [] 0

/-! ## The host -/

/-- What is in the two files, and whether a write has accepted nothing. -/
structure Transfer where
  content : Bytes
  offset : Nat
  received : Bytes
  refused : Bool

def Transfer.receive (s : Transfer) (data : Bytes) : Transfer := { s with received := s.received ++ data }

@[simp] theorem Transfer.receive_nil (s : Transfer) : s.receive [] = s := by
  simp [receive]

@[simp] theorem Transfer.receive_receive (s : Transfer) (a b : Bytes) :
    (s.receive a).receive b = s.receive (a ++ b) := by
  simp [receive]

/-- A read returns a piece of what is left, and nothing only at the end or where nothing is asked for; a
    write accepts a beginning of the data. Nothing is said of other descriptors. -/
def transfer (source destination : Nat) : Machine copying Transfer where
  answers
    | .rewind fd, s, r, s' => fd = source → r = .ok () ∧ s' = { s with offset := 0 }
    | .read fd n, s, r, s' => fd = source → ∃ chunk : Bytes, chunk.length ≤ n ∧
        chunk <+: s.content.drop s.offset ∧ (chunk = [] → n = 0 ∨ s.content.length ≤ s.offset) ∧
        r = .ok chunk ∧ s' = { s with offset := s.offset + chunk.length }
    | .write fd data, s, r, s' => fd = destination → ∃ k : Nat, k ≤ data.length ∧ r = .ok (k : Int) ∧
        s' = { s.receive (data.take k) with refused := s.refused || decide (k = 0) }
  fails _ _ := True

section Loops

variable {source destination : Nat} {b : Faults} {I : Transfer → Prop} {s : Transfer}

/-- The inner loop appends the view, or stops on the way. -/
theorem wp_writeView {view : Bytes} {Q : Faults → Except Exc Unit → Transfer → Prop}
    (hI : ∀ k refused, I { s.receive (view.take k) with refused })
    (hok : Q b (.ok ()) (s.receive view))
    (hshort : ∀ k, Q b (.error (.os (.other 0))) { s.receive (view.take k) with refused := true })
    (hfail : b = .once → ∀ e k, Q .never (.error (.os e)) (s.receive (view.take k))) :
    wp (transfer source destination) I (writeView destination view) b Q s := by
  induction hlen : view.length using Nat.strong_induction_on generalizing s view with
  | _ n ih =>
      subst hlen
      have hstart : I s := by simpa using hI 0 s.refused
      rw [writeView]
      split
      · next hview =>
        subst hview
        exact ⟨hstart, by simpa using hok⟩
      · next hview =>
        refine ⟨hstart, fun r s' ha => ?_, fun e hb _ => ?_⟩
        · obtain ⟨k, hk, rfl, rfl⟩ := ha rfl
          show wp _ I (if (k : Int) ≤ 0 then _ else _) b Q _
          split
          · next hnone =>
            have hzero : k = 0 := by omega
            rw [hzero, decide_eq_true rfl, Bool.or_true]
            exact ⟨hI 0 true, hshort 0⟩
          · next hsome =>
            have hpos : k ≠ 0 := by omega
            have hnext : ({ s.receive (view.take k) with refused := s.refused || decide (k = 0) } : Transfer) =
                s.receive (view.take k) := by
              simp [Transfer.receive, hpos]
            -- what is left is a view of its own, after what has been accepted
            have htake (j : Nat) : (s.receive (view.take k)).receive ((view.drop k).take j) =
                s.receive (view.take (k + j)) := by
              rw [Transfer.receive_receive, List.take_add]
            have hless : (view.drop k).length < view.length := by
              have hlen := List.length_pos_iff.2 hview
              rw [List.length_drop]
              omega
            rw [hnext, Int.toNat_natCast]
            refine ih _ hless ?_ ?_ ?_ ?_ rfl
            · intro j refused
              rw [htake]
              exact hI _ refused
            · rw [Transfer.receive_receive, List.take_append_drop]
              exact hok
            · intro j
              rw [htake]
              exact hshort _
            · intro hb e j
              rw [htake]
              exact hfail hb e _
        · have h := hfail hb e 0
          exact ⟨hstart, by simpa using h⟩

theorem wp_perform {c : CopyCall} {Q : Faults → Except Exc c.Answer → Transfer → Prop} (hI : I s)
    (hanswer : ∀ r s', (transfer source destination).answers c s r s' →
      ∃ a : c.Answer, r = .ok a ∧ I s' ∧ Q b (.ok a) s')
    (hfail : b = .once → ∀ e, Q .never (.error (.os e)) s) :
    wp (transfer source destination) I (perform c) b Q s := by
  refine ⟨hI, fun r s' ha => ?_, fun e hb _ => ⟨hI, hfail hb e⟩⟩
  obtain ⟨a, rfl, hI', hQ⟩ := hanswer r s' ha
  exact ⟨hI', hQ⟩

variable {content received digest : Bytes}

/-- How a copy ends that had received so much before. -/
def CopyEnds (content received : Bytes) (b b' : Faults) (s : Transfer) :
    Except Exc (Option (PyStr × Nat)) → Prop
  | .ok copied => b' = b ∧ s.refused = false ∧ copied = some (sha256 content, content.length) ∧
      s.received = received ++ content
  | .error e => (b = .once ∧ b' = .never ∨ s.refused = true) ∧ (∃ n, e = .os n) ∧
      ∃ k, s.received = received ++ content.take k

/-- What has been written is a beginning of the content, in every state on the way. -/
def Receiving (content received : Bytes) (s : Transfer) : Prop :=
  ∃ k, s.received = received ++ content.take k

theorem take_of_prefix {a chunk : Bytes} (h : a ++ chunk <+: content) (k : Nat) :
    a ++ chunk.take k = content.take (a.length + min k chunk.length) := by
  obtain ⟨rest, rfl⟩ := h
  rw [List.append_assoc, List.take_length_add_append, List.take_append_of_le_length (Nat.min_le_right _ _),
    ← List.take_eq_take_min]

/-- The outer loop, from where it has come to. -/
theorem wp_copyLoop {reads : Nat} (hdigest : digest <+: content)
    (hreads : content.length < digest.length + reads) :
    wp (transfer source destination) (Receiving content received)
      (copyLoop source destination reads digest digest.length) b
      (fun b' x s => CopyEnds content received b b' s x)
      ⟨content, digest.length, received ++ digest, false⟩ := by
  induction reads generalizing digest with
  | zero =>
      have hle := hdigest.length_le
      omega
  | succ reads ih =>
      have hreceived : received ++ digest = received ++ content.take digest.length := by
        rw [← List.prefix_iff_eq_take.1 hdigest]
      have hfailed (b' : Faults) (hb : b = .once) (e : Errno) (s : Transfer) (k : Nat)
          (hs : s.received = received ++ content.take k) :
          CopyEnds content received b .never s (.error (.os e)) :=
        ⟨.inl ⟨hb, rfl⟩, ⟨e, rfl⟩, k, hs⟩
      refine wp_bind (wp_perform ⟨_, hreceived⟩ (fun r s' ha => ?_) fun hb e =>
        hfailed .never hb e _ _ hreceived)
      obtain ⟨chunk, -, hchunk, hend, rfl, rfl⟩ := ha rfl
      refine ⟨chunk, rfl, ⟨_, hreceived⟩, ?_⟩
      show wp _ _ (if chunk = [] then _ else _) b _ _
      split
      · next hnil =>
        -- the end of the source
        subst hnil
        have hall : digest = content := by
          rcases hend rfl with hzero | hlen
          · exact absurd hzero (by decide)
          · rw [List.prefix_iff_eq_take.1 hdigest, List.take_of_length_le hlen]
        subst hall
        refine wp_bind (wp_perform ⟨_, hreceived⟩ (fun r s' ha => ?_) fun hb e =>
          hfailed .never hb e _ _ hreceived)
        obtain ⟨rfl, rfl⟩ := ha rfl
        exact ⟨(), rfl, ⟨_, hreceived⟩, ⟨_, hreceived⟩, rfl, rfl, rfl, rfl⟩
      · next hsome =>
        have hnext : digest ++ chunk <+: content := by
          obtain ⟨rest, hrest⟩ := hchunk
          refine ⟨rest, ?_⟩
          have hsplit := List.take_append_drop digest.length content
          rw [← List.prefix_iff_eq_take.1 hdigest, ← hrest] at hsplit
          rw [List.append_assoc]
          exact hsplit
        have hpiece (k : Nat) : (received ++ digest) ++ chunk.take k =
            received ++ content.take (digest.length + min k chunk.length) := by
          rw [List.append_assoc, take_of_prefix hnext]
        refine wp_bind (wp_writeView (fun k refused => ⟨_, hpiece k⟩) ?_ (fun k => ?_) fun hb e k => ?_)
        · have hlen : (digest ++ chunk).length = digest.length + chunk.length := List.length_append
          have hpos := List.length_pos_iff.2 hsome
          have hrest := ih hnext (by omega)
          rw [hlen] at hrest
          rw [← List.append_assoc] at hrest
          exact hrest
        · exact ⟨.inr rfl, ⟨_, rfl⟩, _, hpiece k⟩
        · exact hfailed .never hb e _ _ (hpiece k)

theorem wp_copyPieces {reads offset : Nat} (hreads : content.length < reads) :
    wp (transfer source destination) (Receiving content received) (copyPieces reads source destination) b
      (fun b' x s => CopyEnds content received b b' s x) ⟨content, offset, received, false⟩ := by
  have hstart : received = received ++ content.take 0 := by simp
  refine wp_bind (wp_perform ⟨0, hstart⟩ (fun r s' ha => ?_) fun hb e =>
    ⟨.inl ⟨hb, rfl⟩, ⟨e, rfl⟩, 0, hstart⟩)
  obtain ⟨rfl, rfl⟩ := ha rfl
  refine ⟨(), rfl, ⟨0, hstart⟩, ?_⟩
  have hloop : wp (transfer source destination) (Receiving content received)
      (copyLoop source destination reads [] 0) b (fun b' x s => CopyEnds content received b b' s x)
      ⟨content, 0, received ++ [], false⟩ :=
    wp_copyLoop List.nil_prefix (by simpa using hreads)
  rw [List.append_nil] at hloop
  exact hloop

end Loops

/-- Every call has an answer. -/
theorem transfer_answers (source destination : Nat) (c : CopyCall) (s : Transfer) :
    ∃ r s', (transfer source destination).answers c s r s' := by
  cases c with
  | rewind fd => exact ⟨.ok (), _, fun _ => ⟨rfl, rfl⟩⟩
  | read fd n =>
      -- as much as is asked for
      refine ⟨.ok ((s.content.drop s.offset).take n), _, fun _ => ⟨_, ?_, List.take_prefix _ _, ?_, rfl, rfl⟩⟩
      · exact List.length_take_le _ _
      · intro hnil
        rcases List.take_eq_nil_iff.1 hnil with hn | hrest
        · exact .inl hn
        · exact .inr (List.drop_eq_nil_iff.1 hrest)
  | write fd data => exact ⟨_, _, fun _ => ⟨data.length, le_rfl, rfl, rfl⟩⟩

/-- **The copy is exact**: it ends; what it returns is the digest and the size of the source, and the
    destination has received the source; and if a write accepts nothing, or a call fails, it raises an
    `OSError` with a beginning of the source received. -/
theorem copy_exact (source destination : Nat) (content received : Bytes) (offset reads : Nat)
    (hreads : content.length < reads) :
    Halts (transfer source destination) .once (copyPieces reads source destination)
      ⟨content, offset, received, false⟩ ∧
    ∀ b x s, Steps (transfer source destination) .once (copyPieces reads source destination)
        ⟨content, offset, received, false⟩ b (ofResult x) s →
      match x with
      | .ok copied => b = .once ∧ s.refused = false ∧ copied = some (sha256 content, content.length) ∧
          s.received = received ++ content
      | .error e => (b = .never ∨ s.refused = true) ∧ (∃ n, e = .os n) ∧
          ∃ k, s.received = received ++ content.take k := by
  refine ⟨halts (transfer_answers source destination) _ _ _, fun b x s hrun => ?_⟩
  have hends := wp_steps (wp_copyPieces hreads) hrun
  cases x with
  | ok copied => exact hends.2
  | error e => exact ⟨hends.2.1.imp (fun h => h.2) fun h => h, hends.2.2⟩

/-- Three bytes, into a file that has one already. -/
theorem three_bytes_copied :
    Halts (transfer 3 4) .once (copyPieces 4 3 4) ⟨[1, 2, 3], 0, [9], false⟩ ∧
    ∀ b x s, Steps (transfer 3 4) .once (copyPieces 4 3 4) ⟨[1, 2, 3], 0, [9], false⟩ b (ofResult x) s →
      match x with
      | .ok copied => b = .once ∧ s.refused = false ∧ copied = some (sha256 [1, 2, 3], 3) ∧
          s.received = [9] ++ [1, 2, 3]
      | .error e => (b = .never ∨ s.refused = true) ∧ (∃ n, e = .os n) ∧
          ∃ k, s.received = [9] ++ List.take k [1, 2, 3] :=
  copy_exact 3 4 [1, 2, 3] [9] 0 4 (by decide)

/-! ## The copy of the manager -/

section Manager

variable {F : Type} [PyFloat F] {uuid : PyStr} {allowed : Call F → Exc → Prop}

/-- The write loop may append the data with one call. -/
theorem writeAll_steps (b : Faults) (fd : Nat) (data : Bytes) (f : Files Path) :
    ∃ f', Steps (machine uuid allowed) b (writeAll fd data : Prog F Unit) f b (ofResult (.ok ())) f' ∧
      (f'.nodes fd).bytes = (f.nodes fd).bytes ++ data := by
  rw [writeAll]
  cases hdata : data.length with
  | zero =>
      rw [List.length_eq_zero_iff] at hdata
      subst hdata
      exact ⟨f, .refl, (List.append_nil _).symm⟩
  | succ n =>
      have hpos : data.length ≠ 0 := by omega
      have hsome : data ≠ [] := List.length_pos_iff.1 (by omega)
      refine ⟨f.setNode fd { f.nodes fd with bytes := (f.nodes fd).bytes ++ data.take data.length },
        ?_, ?_⟩
      · rw [writeLoop, if_neg hsome]
        refine .step (.answer (r := .ok data.length)
          ⟨.ok data.length, ⟨data.length, (f.nodes fd).mtime, (f.nodes fd).ctime, le_rfl, fun _ => hpos, rfl, rfl⟩, rfl⟩) ?_
        show Steps _ b (if data.length = 0 then _ else _) _ b _ _
        rw [if_neg hpos, List.drop_length]
        cases n with
        | zero => exact .refl
        | succ n => exact .refl
      · rw [List.take_length]
        simp [Files.setNode]

/-- A copy by pieces that returns is a copy of the manager's, with the same digest and size, and the same
    bytes in the destination. -/
theorem copyBetweenFds_of_pieces {source destination reads offset : Nat} {b b' : Faults} {f : Files Path}
    {copied : Option (PyStr × Nat)} {s : Transfer} (hreads : (f.nodes source).bytes.length < reads)
    (hrun : Steps (transfer source destination) b (copyPieces reads source destination)
      ⟨(f.nodes source).bytes, offset, (f.nodes destination).bytes, false⟩ b' (ofResult (.ok copied)) s) :
    ∃ r f', copied = some r ∧ (f'.nodes destination).bytes = s.received ∧
      Steps (machine uuid allowed) b (copyBetweenFds source destination : Prog F _) f b
        (ofResult (.ok r)) f' := by
  obtain ⟨-, -, -, hcopied, hreceived⟩ := wp_steps (wp_copyPieces hreads) hrun
  obtain ⟨f', hwrites, hbytes⟩ : ∃ f', Steps (machine uuid allowed) b
      (writeAll destination (f.nodes source).bytes : Prog F Unit) f b (ofResult (.ok ())) f' ∧
      (f'.nodes destination).bytes = (f.nodes destination).bytes ++ (f.nodes source).bytes :=
    writeAll_steps b destination _ f
  refine ⟨_, f', hcopied, hbytes.trans hreceived.symm, ?_⟩
  have hanswer : (machine uuid allowed : Machine (interface F) _).answers (.file (.readAll source)) f
      (.ok (f.nodes source).bytes) f :=
    ⟨.ok (f.nodes source).bytes, ⟨rfl, rfl⟩, rfl⟩
  exact .step (.answer hanswer) (hwrites.bind _)

end Manager

end Elyra.Quarantine
