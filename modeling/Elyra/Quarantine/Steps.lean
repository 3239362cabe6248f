import Elyra.Quarantine.Manager

set_option autoImplicit false

/-! # What the manager's steps do

The machine the manager runs on: the file system of `Files`, a clock, and identifiers that are not in
use. One rule for each call and one for each helper of the manager. The rule of a helper says in which
states it can leave the files, when it returns and when it raises; the operations are put together
from these rules without looking into the helpers again.

A call can fail with an exception it is `allowed` to fail with. Failures that the manager passes over
are `Tolerated`; `Spent` says that a run that goes on normally has met no other. -/

namespace Elyra.Quarantine

open Elyra.Python Elyra.Posix Elyra.Posix.Program

variable {F : Type} {α : Type}

/-! ## The machine -/

/-- The exceptions a call can raise. -/
def canFail : Call F → Exc → Prop
  | .file _, e => ∃ n, e = .os n
  | .resolve _, e => ∃ n, e = .os n
  | .utcIso _, e => e = .value
  | .magic _, _ => True
  | _, _ => False

/-- No temporary file uses the token. -/
def FreshToken (f : Files Path) (token : PyStr) : Prop :=
  token.length = 32 ∧ ∀ dir id, f.names ⟨dir, temporaryName id token⟩ = none

/-- The host; `uuid` is what `uuid.uuid4()` gives the call. -/
def machine [PyFloat F] (uuid : PyStr) (allowed : Call F → Exc → Prop) :
    Machine (interface F) (Files Path) where
  answers
    | .file c, f, r, f' => ∃ r₀, f.answers c r₀ f' ∧ r = r₀.mapError Exc.os
    | .resolve _, f, r, f' => f' = f ∧ r = .ok true
    | .uuid4, f, r, f' => f' = f ∧ r = .ok uuid
    | .token, f, r, f' => f' = f ∧ ∃ token, FreshToken f token ∧ r = .ok token
    | .time, f, r, f' => f' = f ∧ ∃ t : F, PyFloat.finite t = true ∧ r = .ok t
    | .utcIso _, f, r, f' => f' = f ∧ ∃ text : PyStr, (∀ c ∈ text, c < 128) ∧ r = .ok text
    | .magic _, f, r, f' => f' = f ∧ ∃ text : Option PyStr,
        (∀ t ∈ text, ∀ c ∈ t, c < 128) ∧ r = .ok text
    | .geteuid, f, r, f' => f' = f ∧ ∃ n : Nat, r = .ok n
  fails c e := canFail c e ∧ allowed c e

/-- Failures that `quarantine_file` passes over: of an existence test, of a directory's `fsync` (the
    source's directory, or one that cannot be synced at all), of `renameat2` where the fallback takes
    over, and of the detection of the file type. -/
def Tolerated : Call F → Exc → Prop
  | .file (.lexists _), _ => True
  | .file (.openDir _), _ => True
  | .file (.fsyncDir d), e => e = .os .invalid ∨ e = .os .readOnly ∨ ∃ p, d = .parent p
  | .file (.rename _ _), e => e = .os .noSyscall ∨ e = .os .invalid
  | .file (.openFile _), _ => True
  | .file (.readHead _ _), _ => True
  | .magic _, e => ∃ n, e = .os n
  | _, _ => False

/-- A run that had `b` left and has `b'` left has met no failure, or one that is tolerated. -/
def Spent (allowed : Call F → Exc → Prop) (b b' : Faults) : Prop :=
  b' = b ∨ b = .once ∧ b' = .never ∧ ∃ c e, allowed c e ∧ Tolerated c e

theorem Spent.refl (allowed : Call F → Exc → Prop) (b : Faults) : Spent allowed b b := .inl rfl

theorem Spent.tolerated {allowed : Call F → Exc → Prop} {b : Faults} {c : Call F} {e : Exc}
    (hb : b = .once) (ha : allowed c e) (ht : Tolerated c e) : Spent allowed b .never :=
  .inr ⟨hb, rfl, c, e, ha, ht⟩

theorem Spent.once {allowed : Call F → Exc → Prop} {b b' : Faults} (h : Spent allowed b b')
    (hb' : b' = .once) : b = .once := by
  rcases h with rfl | ⟨hb, -⟩
  · exact hb'
  · exact hb

theorem Spent.trans {allowed : Call F → Exc → Prop} {b b' b'' : Faults} (h : Spent allowed b b')
    (h' : Spent allowed b' b'') : Spent allowed b b'' := by
  rcases h' with rfl | ⟨hb', rfl, ht⟩
  · exact h
  · exact .inr ⟨h.once hb', rfl, ht⟩

theorem Spent.of_never {allowed : Call F → Exc → Prop} {b' : Faults}
    (h : Spent allowed .never b') : b' = .never := by
  rcases h with h | ⟨h, -⟩
  · exact h
  · exact nomatch h

/-! ## Rules of the calls -/

section Rules

variable [PyFloat F] {uuid : PyStr} {allowed : Call F → Exc → Prop} {I : Files Path → Prop}
  {b : Faults} {f : Files Path}

theorem wp_ask {c : Call F} {Q : Faults → Except Exc c.Answer → Files Path → Prop} (hI : I f)
    (hanswer : ∀ r f', (machine uuid allowed).answers c f r f' → I f' ∧ Q b r f')
    (hfail : ∀ e, b = .once → canFail c e → allowed c e → Q .never (.error e) f) :
    wp (machine uuid allowed) I (ask c) b Q f := by
  refine ⟨hI, ?_, ?_⟩
  · intro r f' h
    cases r with
    | ok a => exact hanswer _ f' h
    | error e => exact hanswer _ f' h
  · rintro e hb ⟨hcan, hallowed⟩
    exact ⟨hI, hfail e hb hcan hallowed⟩

theorem wp_sys {c : FileCall Path Directory}
    {Q : Faults → Except Exc c.Answer → Files Path → Prop} (hI : I f)
    (hanswer : ∀ r f', f.answers c r f' → I f' ∧ Q b (r.mapError Exc.os) f')
    (hfail : b = .once → ∀ e, Q .never (.error (.os e)) f) :
    wp (machine uuid allowed) I (sys c) b Q f := by
  refine wp_ask (c := .file c) hI ?_ ?_
  · rintro r f' ⟨r₀, h, rfl⟩
    exact hanswer r₀ f' h
  · rintro e hb ⟨n, rfl⟩ -
    exact hfail hb n

theorem wp_fstat {fd : Nat} {Q : Faults → Except Exc Stat → Files Path → Prop} (hI : I f)
    (hok : Q b (.ok (f.stat fd)) f) (hfail : b = .once → ∀ e, Q .never (.error (.os e)) f) :
    wp (machine uuid allowed) I (sys (.fstat fd)) b Q f := by
  refine wp_sys hI ?_ hfail
  rintro r f' ⟨rfl, rfl⟩
  exact ⟨hI, hok⟩

theorem wp_lstat {p : Path} {i : Nat} {Q : Faults → Except Exc Stat → Files Path → Prop}
    (hp : f.names p = some i) (hI : I f) (hok : Q b (.ok (f.stat i)) f)
    (hfail : b = .once → ∀ e, Q .never (.error (.os e)) f) :
    wp (machine uuid allowed) I (sys (.lstat p)) b Q f := by
  refine wp_sys hI ?_ hfail
  rintro r f' ⟨rfl, rfl⟩
  rw [hp]
  exact ⟨hI, hok⟩

theorem wp_readAll {fd : Nat} {Q : Faults → Except Exc Bytes → Files Path → Prop} (hI : I f)
    (hok : Q b (.ok (f.nodes fd).bytes) f)
    (hfail : b = .once → ∀ e, Q .never (.error (.os e)) f) :
    wp (machine uuid allowed) I (sys (.readAll fd)) b Q f := by
  refine wp_sys hI ?_ hfail
  rintro r f' ⟨rfl, rfl⟩
  exact ⟨hI, hok⟩

/-- A new file under a free name. -/
structure Created (p : Path) (f f' : Files Path) : Prop where
  names : f'.names = Function.update f.names p (some f.used)
  used : f'.used = f.used + 1
  old : f.Extends f'
  kind : (f'.nodes f.used).kind = .regular
  bytes : (f'.nodes f.used).bytes = []

theorem created_create {p : Path} {node : Node} (hk : node.kind = .regular)
    (hb : node.bytes = []) : Created p f (f.create p node) :=
  ⟨rfl, rfl, Files.extends_create f p node, by simp [Files.create, hk],
    by simp [Files.create, hb]⟩

theorem created_of_answers {p : Path} {f f' : Files Path} {u : Nat}
    (h : f.answers (D := Directory) (.openNew p) (.ok u) f') :
    u = f.used ∧ f.names p = none ∧ Created p f f' := by
  cases hp : f.names p with
  | some i =>
      simp only [Files.answers, hp] at h
      exact absurd h.2 (by simp)
  | none =>
      simp only [Files.answers, hp] at h
      obtain ⟨hu, node, hk, hb, rfl⟩ := h
      cases hu
      exact ⟨rfl, rfl, created_create hk hb⟩

theorem wp_openNew {p : Path} {Q : Faults → Except Exc Nat → Files Path → Prop}
    (hp : f.names p = none) (hI : I f)
    (hok : ∀ f', Created p f f' → I f' ∧ Q b (.ok f.used) f')
    (hfail : b = .once → ∀ e, Q .never (.error (.os e)) f) :
    wp (machine uuid allowed) I (sys (.openNew p)) b Q f := by
  refine wp_sys hI ?_ hfail
  intro r f' h
  simp only [Files.answers, hp] at h
  obtain ⟨rfl, node, hk, hb, rfl⟩ := h
  exact hok _ (created_create hk hb)

theorem wp_fchmod {fd mode : Nat} {Q : Faults → Except Exc Unit → Files Path → Prop} (hI : I f)
    (hok : ∀ f', f.OnlyNode fd f' → (f'.nodes fd).bytes = (f.nodes fd).bytes →
      (f'.nodes fd).mode = mode → I f' ∧ Q b (.ok ()) f')
    (hfail : b = .once → ∀ e, Q .never (.error (.os e)) f) :
    wp (machine uuid allowed) I (sys (.fchmod fd mode)) b Q f := by
  refine wp_sys hI ?_ hfail
  rintro r f' ⟨ctime, rfl, rfl⟩
  exact hok _ (Files.onlyNode_setNode rfl) (by simp [Files.setNode]) (by simp [Files.setNode])

theorem wp_fsync {fd : Nat} {Q : Faults → Except Exc Unit → Files Path → Prop} (hI : I f)
    (hok : Q b (.ok ()) f) (hfail : b = .once → ∀ e, Q .never (.error (.os e)) f) :
    wp (machine uuid allowed) I (sys (.fsync fd)) b Q f := by
  refine wp_sys hI ?_ hfail
  rintro r f' ⟨rfl, rfl⟩
  exact ⟨hI, hok⟩

/-- The names are those of `n`; the files stay. -/
structure Relabelled (n : Path → Option Nat) (f f' : Files Path) : Prop where
  names : f'.names = n
  used : f'.used = f.used
  keeps : f.Keeps f'

theorem Relabelled.refl (f : Files Path) : Relabelled f.names f f := ⟨rfl, rfl, .refl f⟩

theorem Relabelled.trans {n n' : Path → Option Nat} {f f' f'' : Files Path}
    (h : Relabelled n f f') (h' : Relabelled n' f' f'') : Relabelled n' f f'' :=
  ⟨h'.names, h'.used.trans h.used, h.keeps.trans h'.keeps⟩

theorem relabelled_setNode {n : Path → Option Nat} {i : Nat} {node : Node} {f f' : Files Path}
    (h : Relabelled n f f') (hs : (f'.nodes i).Same node) : Relabelled n f (f'.setNode i node) :=
  ⟨h.names, h.used, h.keeps.trans (Files.keeps_setNode hs)⟩

theorem relabelled_setName (f : Files Path) (p : Path) (i : Option Nat) :
    Relabelled (Function.update f.names p i) f (f.setName p i) :=
  ⟨rfl, rfl, f.keeps_setName p i⟩

theorem relabelled_unlink {p : Path} {f f' : Files Path}
    {a : (FileCall.unlink (D := Directory) p).Answer} (h : f.answers (.unlink p) (.ok a) f') :
    Relabelled (Function.update f.names p none) f f' := by
  simp only [Files.answers] at h
  split at h
  · exact absurd h.2 (by simp)
  · split at h
    · obtain ⟨n, -, hr⟩ := h
      exact absurd hr (by simp)
    · obtain ⟨-, ctime, rfl⟩ := h
      exact relabelled_setNode (relabelled_setName f p none) ⟨rfl, rfl, rfl, rfl, rfl, rfl, rfl⟩

theorem wp_unlink {p : Path} {i : Nat} {Q : Faults → Except Exc Unit → Files Path → Prop}
    (hp : f.names p = some i) (hk : (f.nodes i).kind ≠ .directory) (hI : I f)
    (hok : ∀ f', Relabelled (Function.update f.names p none) f f' → I f' ∧ Q b (.ok ()) f')
    (hfail : b = .once → ∀ e, Q .never (.error (.os e)) f) :
    wp (machine uuid allowed) I (sys (.unlink p)) b Q f := by
  refine wp_sys hI ?_ hfail
  intro r f' h
  have hok' : r = .ok () := by
    simp only [Files.answers, hp, if_neg hk] at h
    exact h.1
  subst hok'
  exact hok f' (relabelled_unlink h)

theorem wp_chmod {p : Path} {i mode : Nat} {Q : Faults → Except Exc Unit → Files Path → Prop}
    (hp : f.names p = some i) (hmode : (f.nodes i).mode = mode) (hI : I f)
    (hok : ∀ f', Relabelled f.names f f' → I f' ∧ Q b (.ok ()) f')
    (hfail : b = .once → ∀ e, Q .never (.error (.os e)) f) :
    wp (machine uuid allowed) I (sys (.chmod p mode)) b Q f := by
  refine wp_sys hI ?_ hfail
  intro r f' h
  simp only [Files.answers, hp] at h
  obtain ⟨ctime, rfl, rfl⟩ := h
  exact hok _ (relabelled_setNode (Relabelled.refl f)
    ⟨rfl, rfl, rfl, hmode.symm, rfl, rfl, rfl⟩)

theorem relabelled_replace {src dst : Path} {i : Nat} {f f' : Files Path}
    {a : (FileCall.replace (D := Directory) src dst).Answer} (hsrc : f.names src = some i)
    (hdst : f.names dst ≠ some i) (h : f.answers (.replace src dst) (.ok a) f') :
    Relabelled (Function.update (Function.update f.names src none) dst (some i)) f f' := by
  have hmoved : Relabelled (Function.update (Function.update f.names src none) dst (some i)) f
      ((f.setName src none).setName dst (some i)) :=
    (relabelled_setName f src none).trans (relabelled_setName (f.setName src none) dst (some i))
  cases hj : f.names dst with
  | none =>
      simp only [Files.answers, hsrc, hj] at h
      obtain ⟨-, ctime, rfl⟩ := h
      exact relabelled_setNode hmoved ⟨rfl, rfl, rfl, rfl, rfl, rfl, rfl⟩
  | some j =>
      have hne : j ≠ i := by
        rintro rfl
        exact hdst hj
      simp only [Files.answers, hsrc, hj, if_neg hne] at h
      split at h
      · obtain ⟨n, -, hr⟩ := h
        exact absurd hr (by simp)
      · obtain ⟨-, ctime, ctime', rfl⟩ := h
        refine relabelled_setNode
          (relabelled_setNode hmoved ⟨rfl, rfl, rfl, rfl, rfl, rfl, rfl⟩) ?_
        simp only [Files.setNode, Function.update_of_ne hne]
        exact ⟨rfl, rfl, rfl, rfl, rfl, rfl, rfl⟩

/-- `os.replace` of a file onto a name that is free or that of a regular file. -/
theorem wp_replace {src dst : Path} {i : Nat} {Q : Faults → Except Exc Unit → Files Path → Prop}
    (hsrc : f.names src = some i)
    (hdst : ∀ j, f.names dst = some j → j ≠ i ∧ (f.nodes j).kind ≠ .directory) (hI : I f)
    (hok : ∀ f', Relabelled (Function.update (Function.update f.names src none) dst (some i)) f f' →
      I f' ∧ Q b (.ok ()) f')
    (hfail : b = .once → ∀ e, Q .never (.error (.os e)) f) :
    wp (machine uuid allowed) I (sys (.replace src dst)) b Q f := by
  refine wp_sys hI ?_ hfail
  intro r f' h
  have hok' : r = .ok () := by
    cases hj : f.names dst with
    | none =>
        simp only [Files.answers, hsrc, hj] at h
        exact h.1
    | some j =>
        obtain ⟨hne, hk⟩ := hdst j hj
        simp only [Files.answers, hsrc, hj, if_neg hne, if_neg hk] at h
        exact h.1
  subst hok'
  exact hok f' (relabelled_replace hsrc (fun hi => (hdst i hi).1 rfl) h)

/-! ## Rules of the helpers -/

theorem wp_lexists {p : Path} {Q : Faults → Except Exc Bool → Files Path → Prop} (hI : I f)
    (hok : Q b (.ok (f.names p).isSome) f)
    (hfail : b = .once → ∀ e, allowed (.file (.lexists p)) e → Q .never (.ok false) f) :
    wp (machine uuid allowed) I (lexists p) b Q f := by
  refine ⟨hI, ?_, ?_⟩
  · rintro r f' ⟨r₀, ⟨rfl, rfl⟩, rfl⟩
    exact ⟨hI, hok⟩
  · rintro e hb ⟨-, hallowed⟩
    exact ⟨hI, hfail hb e hallowed⟩

theorem wp_check {ok : Prop} [Decidable ok] {e : Exc}
    {Q : Faults → Except Exc Unit → Files Path → Prop} (hI : I f) (hok : ok → Q b (.ok ()) f)
    (hraise : ¬ ok → Q b (.error e) f) : wp (machine uuid allowed) I (check ok e) b Q f := by
  unfold check
  split
  · next h => exact ⟨hI, hok h⟩
  · next h => exact ⟨hI, hraise h⟩

theorem wp_lift {x : Except Exc α} {Q : Faults → Except Exc α → Files Path → Prop} (hI : I f)
    (h : Q b x f) : wp (machine uuid allowed) I (lift x) b Q f := by
  cases x with
  | ok a => exact ⟨hI, h⟩
  | error e => exact ⟨hI, h⟩

theorem wp_unlinkMissingOk {p : Path} {Q : Faults → Except Exc Unit → Files Path → Prop}
    (hk : ∀ i, f.names p = some i → (f.nodes i).kind ≠ .directory) (hI : I f)
    (hok : ∀ f', Relabelled (Function.update f.names p none) f f' →
      I f' ∧ Q .never (.ok ()) f') :
    wp (machine uuid allowed) I (unlinkMissingOk p) .never Q f := by
  refine ⟨hI, ?_, fun _ hb => nomatch hb⟩
  rintro r f' ⟨r₀, h, rfl⟩
  cases hp : f.names p with
  | none =>
      simp only [Files.answers, hp] at h
      obtain ⟨rfl, rfl⟩ := h
      have hsame : Function.update f'.names p none = f'.names := by
        rw [← hp]
        exact Function.update_eq_self p f'.names
      refine hok f' ?_
      rw [hsame]
      exact Relabelled.refl f'
  | some i =>
      simp only [Files.answers, hp, if_neg (hk i hp)] at h
      obtain ⟨rfl, ctime, rfl⟩ := h
      exact hok _ (relabelled_setNode (relabelled_setName f p none)
        ⟨rfl, rfl, rfl, rfl, rfl, rfl, rfl⟩)

theorem wp_fsyncDirectory {d : Directory} {Q : Faults → Except Exc Unit → Files Path → Prop}
    (hI : I f) (hok : ∀ b', Spent allowed b b' → Q b' (.ok ()) f)
    (hfail : b = .once → ∀ e, allowed (.file (.fsyncDir d)) (.os e) → e ≠ .invalid →
      e ≠ .readOnly → Q .never (.error (.os e)) f) :
    wp (machine uuid allowed) I (fsyncDirectory d) b Q f := by
  refine ⟨hI, ?_, ?_⟩
  · rintro r f' ⟨r₀, ⟨rfl, rfl⟩, rfl⟩
    refine ⟨hI, ?_, ?_⟩
    · rintro r f'' ⟨r₀, ⟨rfl, rfl⟩, rfl⟩
      exact ⟨hI, hok b (.refl _ _)⟩
    · rintro e hb ⟨⟨n, rfl⟩, hallowed⟩
      have hspent (ht : Tolerated (F := F) (.file (.fsyncDir d)) (.os n)) :
          Spent allowed b .never := .tolerated hb hallowed ht
      cases n with
      | invalid => exact ⟨hI, hok _ (hspent (.inl rfl))⟩
      | readOnly => exact ⟨hI, hok _ (hspent (.inr (.inl rfl)))⟩
      | noEntry => exact ⟨hI, hfail hb _ hallowed (by simp) (by simp)⟩
      | «exists» => exact ⟨hI, hfail hb _ hallowed (by simp) (by simp)⟩
      | noSyscall => exact ⟨hI, hfail hb _ hallowed (by simp) (by simp)⟩
      | loop => exact ⟨hI, hfail hb _ hallowed (by simp) (by simp)⟩
      | other n => exact ⟨hI, hfail hb _ hallowed (by simp) (by simp)⟩
  · rintro e hb ⟨-, hallowed⟩
    exact ⟨hI, hok _ (.tolerated hb hallowed trivial)⟩

/-- The names after a move. -/
def movedNames (n : Path → Option Nat) (src dst : Path) (i : Nat) : Path → Option Nat :=
  Function.update (Function.update n src none) dst (some i)

section Move

variable {src dst : Path} {i : Nat} {Q : Faults → Except Exc Unit → Files Path → Prop}

/-- The states a move passes through: between the link and the unlink of the fallback there are two
    names. -/
def Moving (src dst : Path) (i : Nat) (f f' : Files Path) : Prop :=
  Relabelled f.names f f' ∨ Relabelled (Function.update f.names dst (some i)) f f' ∨
    Relabelled (movedNames f.names src dst i) f f'

theorem wp_linkAndUnlink (hsrc : f.names src = some i) (hdst : f.names dst = none)
    (hk : (f.nodes i).kind ≠ .directory) (hI : ∀ f', Moving src dst i f f' → I f')
    (hok : ∀ f', Relabelled (movedNames f.names src dst i) f f' → Q b (.ok ()) f')
    (hfail : b = .once → ∀ e f', Relabelled f.names f f' → Q .never (.error (.os e)) f') :
    wp (machine uuid allowed) I (linkAndUnlink src dst) b Q f := by
  have hne : src ≠ dst := by
    rintro rfl
    simp [hsrc] at hdst
  have hI₀ : I f := hI f (.inl (.refl f))
  refine ⟨hI₀, ?_, ?_⟩
  · rintro r f₁ ⟨r₀, h, rfl⟩
    simp only [Files.answers, hsrc, hdst] at h
    obtain ⟨rfl, ctime, hf₁⟩ := h
    have hlinked : Relabelled (Function.update f.names dst (some i)) f f₁ := by
      rw [hf₁]
      exact relabelled_setNode (relabelled_setName f dst (some i))
        ⟨rfl, rfl, rfl, rfl, rfl, rfl, rfl⟩
    have hsrc₁ : f₁.names src = some i := by
      rw [hlinked.names, Function.update_of_ne hne, hsrc]
    have hdst₁ : f₁.names dst = some i := by
      rw [hlinked.names, Function.update_self]
    have hk₁ : (f₁.nodes i).kind ≠ .directory := by
      rw [hf₁]
      simpa [Files.setNode, Files.setName] using hk
    have hI₁ : I f₁ := hI f₁ (.inr (.inl hlinked))
    refine ⟨hI₁, ?_, ?_⟩
    · rintro r f₂ ⟨r₀, h, rfl⟩
      simp only [Files.answers, hsrc₁, if_neg hk₁] at h
      obtain ⟨rfl, ctime, rfl⟩ := h
      have hmoved : Relabelled (movedNames f.names src dst i) f ((f₁.setName src none).setNode i
          { f₁.nodes i with links := (f₁.nodes i).links - 1, ctime := ctime }) := by
        have h := hlinked.trans (relabelled_setName f₁ src none)
        rw [hlinked.names, Function.update_comm hne.symm] at h
        exact relabelled_setNode h ⟨rfl, rfl, rfl, rfl, rfl, rfl, rfl⟩
      exact ⟨hI _ (.inr (.inr hmoved)), hok _ hmoved⟩
    · rintro e hb ⟨⟨n, rfl⟩, -⟩
      -- the source cannot be unlinked, and the link is taken back
      refine ⟨hI₁, ?_, fun _ hb => by cases hb⟩
      rintro r f₂ ⟨r₀, h, rfl⟩
      simp only [Files.answers, hdst₁, if_neg hk₁] at h
      obtain ⟨rfl, ctime, rfl⟩ := h
      have hback : Relabelled f.names f ((f₁.setName dst none).setNode i
          { f₁.nodes i with links := (f₁.nodes i).links - 1, ctime := ctime }) := by
        have hnames : Function.update f₁.names dst none = f.names := by
          rw [hlinked.names, Function.update_idem, ← hdst, Function.update_eq_self]
        have h := hlinked.trans (relabelled_setName f₁ dst none)
        rw [hnames] at h
        exact relabelled_setNode h ⟨rfl, rfl, rfl, rfl, rfl, rfl, rfl⟩
      exact ⟨hI _ (.inl hback), hfail hb n _ hback⟩
  · rintro e hb ⟨⟨n, rfl⟩, -⟩
    exact ⟨hI₀, hfail hb n f (.refl f)⟩

/-- `_move_noreplace` from the call of `renameat2` on. -/
def renameOrLink (src dst : Path) : Prog F Unit :=
  .call (.file (.rename src dst)) fun
    | .ok _ => .done ()
    | .error (.os .noSyscall) => linkAndUnlink src dst
    | .error (.os .invalid) => linkAndUnlink src dst
    | .error e => .raise e

/-- **The move.** It moves the file, or leaves it where it was. -/
theorem wp_moveNoreplace (hsrc : f.names src = some i) (hdst : f.names dst = none)
    (hk : (f.nodes i).kind ≠ .directory) (hI : ∀ f', Moving src dst i f f' → I f')
    (hok : ∀ b' f', Spent allowed b b' → Relabelled (movedNames f.names src dst i) f f' →
      Q b' (.ok ()) f')
    (hfail : b = .once → ∀ e f', Relabelled f.names f f' → Q .never (.error (.os e)) f') :
    wp (machine uuid allowed) I (moveNoreplace src dst) b Q f := by
  have hI₀ : I f := hI f (.inl (.refl f))
  -- with what is left of the faults after the test
  have hrename : ∀ b', Spent allowed b b' →
      wp (machine uuid allowed) I (renameOrLink src dst) b' Q f := by
    intro b' hb'
    have hfallback : ∀ b'', Spent allowed b b'' →
        wp (machine uuid allowed) I (linkAndUnlink src dst) b'' Q f := fun b'' hb'' =>
      wp_linkAndUnlink hsrc hdst hk hI (fun f' h => hok b'' f' hb'' h)
        (fun hb e f' h => hfail (hb''.once hb) e f' h)
    refine ⟨hI₀, ?_, ?_⟩
    · rintro r f₁ ⟨r₀, h, rfl⟩
      simp only [Files.answers, hsrc, hdst] at h
      rcases h with ⟨hf₁, rfl | rfl⟩ | ⟨rfl, ctime, rfl⟩
      · rw [hf₁]
        exact hfallback b' hb'
      · rw [hf₁]
        exact hfallback b' hb'
      · have hmoved : Relabelled (movedNames f.names src dst i) f
            (((f.setName src none).setName dst (some i)).setNode i
              { f.nodes i with ctime := ctime }) :=
          relabelled_setNode ((relabelled_setName f src none).trans
            (relabelled_setName (f.setName src none) dst (some i)))
            ⟨rfl, rfl, rfl, rfl, rfl, rfl, rfl⟩
        exact ⟨hI _ (.inr (.inr hmoved)), hok b' _ hb' hmoved⟩
    · rintro e hb ⟨⟨n, rfl⟩, hallowed⟩
      have hraise : wp (machine uuid allowed) I (.raise (.os n)) .never Q f :=
        ⟨hI₀, hfail (hb'.once hb) n f (.refl f)⟩
      have hspent (ht : Tolerated (F := F) (.file (.rename src dst)) (.os n)) :
          Spent allowed b .never := .tolerated (hb'.once hb) hallowed ht
      cases n with
      | noSyscall => exact hfallback _ (hspent (.inl rfl))
      | invalid => exact hfallback _ (hspent (.inr rfl))
      | noEntry => exact hraise
      | «exists» => exact hraise
      | readOnly => exact hraise
      | loop => exact hraise
      | other n => exact hraise
  refine wp_bind (wp_lexists hI₀ ?_ ?_)
  · rw [hdst]
    exact wp_bind (wp_check hI₀ (fun _ => hrename b (.refl _ _)) (fun h => absurd rfl h))
  · intro hb e hallowed
    refine wp_bind (wp_check hI₀ (fun _ => ?_) (fun h => absurd rfl h))
    exact hrename .never (.tolerated hb hallowed trivial)

end Move

/-! ### Writing -/

/-- The write loop appends the data to the open file, or stops on the way. -/
theorem wp_writeLoop {u : Nat} {Q : Faults → Except Exc Unit → Files Path → Prop} (fuel : Nat)
    (data : Bytes) (hfuel : data.length ≤ fuel) (hI : ∀ f', f.OnlyNode u f' → I f')
    (hok : ∀ f', f.OnlyNode u f' → (f'.nodes u).bytes = (f.nodes u).bytes ++ data →
      (f'.nodes u).mode = (f.nodes u).mode → Q b (.ok ()) f')
    (hfail : b = .once → ∀ e f', f.OnlyNode u f' → Q .never (.error (.os e)) f') :
    wp (machine uuid allowed) I (writeLoop fuel u data) b Q f := by
  induction fuel generalizing f data with
  | zero =>
      have hdata : data = [] := List.length_eq_zero_iff.1 (by omega)
      subst hdata
      exact ⟨hI f (.refl u f), hok f (.refl u f) (by simp) rfl⟩
  | succ fuel ih =>
      unfold writeLoop
      split
      · next hdata =>
        subst hdata
        exact ⟨hI f (.refl u f), hok f (.refl u f) (by simp) rfl⟩
      · next hdata =>
        refine ⟨hI f (.refl u f), ?_, ?_⟩
        · rintro r f₁ ⟨r₀, ⟨n, mtime, ctime, hn, hpos, rfl, rfl⟩, rfl⟩
          have hn0 : n ≠ 0 := hpos hdata
          have hone : f.OnlyNode u (f.setNode u { f.nodes u with
              bytes := (f.nodes u).bytes ++ data.take n, mtime := mtime, ctime := ctime }) :=
            Files.onlyNode_setNode rfl
          show wp _ I (if n = 0 then _ else _) b Q _
          rw [if_neg hn0]
          refine ih (data.drop n) (by simp only [List.length_drop]; omega)
            (fun f' h => hI f' (hone.trans h)) ?_ (fun hb e f' h => hfail hb e f' (hone.trans h))
          intro f' h hbytes hmode
          refine hok f' (hone.trans h) ?_ ?_
          · rw [hbytes]
            simp [Files.setNode]
          · rw [hmode]
            simp [Files.setNode]
        · rintro e hb ⟨⟨n, rfl⟩, -⟩
          exact ⟨hI f (.refl u f), hfail hb n f (.refl u f)⟩

/-- The new file under the name `p`, written to the end. -/
structure Written (p : Path) (data : Bytes) (f f' : Files Path) : Prop where
  names : f'.names = Function.update f.names p (some f.used)
  used : f'.used = f.used + 1
  old : f.Extends f'
  kind : (f'.nodes f.used).kind = .regular
  bytes : (f'.nodes f.used).bytes = data
  mode : (f'.nodes f.used).mode = 0o600

/-- The new file under the name `p`, with whatever contents. -/
structure Begun (p : Path) (f f' : Files Path) : Prop where
  names : f'.names = Function.update f.names p (some f.used)
  used : f'.used = f.used + 1
  old : f.Extends f'
  kind : (f'.nodes f.used).kind = .regular

theorem Created.begun {p : Path} {f f' : Files Path} (h : Created p f f') : Begun p f f' :=
  ⟨h.names, h.used, h.old, h.kind⟩

theorem Written.begun {p : Path} {data : Bytes} {f f' : Files Path} (h : Written p data f f') :
    Begun p f f' :=
  ⟨h.names, h.used, h.old, h.kind⟩

theorem Begun.onlyNode {p : Path} {f f' f'' : Files Path} (h : Begun p f f')
    (h' : f'.OnlyNode f.used f'') : Begun p f f'' :=
  ⟨h'.names.trans h.names, h'.used.trans h.used, h.old.onlyNode le_rfl h',
    h'.kind.trans h.kind⟩

theorem wp_writeAll {p : Path} {f₀ : Files Path} {data : Bytes}
    {Q : Faults → Except Exc Unit → Files Path → Prop} (hf : Created p f₀ f)
    (hI : ∀ f', Begun p f₀ f' → I f')
    (hok : ∀ f', Begun p f₀ f' → (f'.nodes f₀.used).bytes = data → Q b (.ok ()) f')
    (hfail : b = .once → ∀ e f', Begun p f₀ f' → Q .never (.error (.os e)) f') :
    wp (machine uuid allowed) I (writeAll f₀.used data) b Q f := by
  refine wp_writeLoop data.length data le_rfl (fun f' h => hI f' (hf.begun.onlyNode h)) ?_
    (fun hb e f' h => hfail hb e f' (hf.begun.onlyNode h))
  intro f' h hbytes _
  exact hok f' (hf.begun.onlyNode h) (by rw [hbytes, hf.bytes, List.nil_append])

/-- The end of a write: the mode is set and the file synced. -/
theorem wp_protect {p : Path} {f₀ : Files Path} {data : Bytes} {a : α}
    {Q : Faults → Except Exc α → Files Path → Prop} (hf : Begun p f₀ f)
    (hbytes : (f.nodes f₀.used).bytes = data) (hI : ∀ f', Begun p f₀ f' → I f')
    (hok : ∀ f', Written p data f₀ f' → Q b (.ok a) f')
    (hfail : b = .once → ∀ e f', Begun p f₀ f' → Q .never (.error (.os e)) f') :
    wp (machine uuid allowed) I (do
      let _ ← sys (.fchmod f₀.used 0o600)
      let _ ← sys (.fsync f₀.used)
      return a) b Q f := by
  refine wp_bind (wp_fchmod (hI f hf) ?_ (fun hb e => hfail hb e f hf))
  intro f₁ h₁ hbytes₁ hmode₁
  have hf₁ := hf.onlyNode h₁
  refine ⟨hI f₁ hf₁, wp_bind (wp_fsync (hI f₁ hf₁) ?_ (fun hb e => hfail hb e f₁ hf₁))⟩
  refine ⟨hI f₁ hf₁, hok f₁ ⟨hf₁.names, hf₁.used, hf₁.old, hf₁.kind, ?_, hmode₁⟩⟩
  rw [hbytes₁, hbytes]

/-- `_copy_fd_to_new_file` from a file that exists. -/
theorem wp_copyFdToNewFile {fd : Nat} {p : Path}
    {Q : Faults → Except Exc (PyStr × Nat) → Files Path → Prop} (hp : f.names p = none)
    (hfd : fd < f.used) (hI₀ : I f) (hI : ∀ f', Begun p f f' → I f')
    (hok : ∀ f', Written p (f.nodes fd).bytes f f' →
      Q b (.ok (sha256 (f.nodes fd).bytes, (f.nodes fd).bytes.length)) f')
    (hfail₀ : b = .once → ∀ e, Q .never (.error (.os e)) f)
    (hfail : b = .once → ∀ e f', Begun p f f' → Q .never (.error (.os e)) f') :
    wp (machine uuid allowed) I (copyFdToNewFile fd p) b Q f := by
  refine wp_bind (wp_openNew hp hI₀ ?_ hfail₀)
  intro f₁ h₁
  have hI₁ := hI f₁ h₁.begun
  refine ⟨hI₁, ?_⟩
  have hread : (f₁.nodes fd).bytes = (f.nodes fd).bytes := by rw [h₁.old.nodes fd hfd]
  have hcopy : wp (machine uuid allowed) I (copyBetweenFds fd f.used) b (fun b' r f' =>
      match r with
      | .ok a => b' = b ∧ Begun p f f' ∧ (f'.nodes f.used).bytes = (f.nodes fd).bytes ∧
          a = (sha256 (f.nodes fd).bytes, (f.nodes fd).bytes.length)
      | .error e => ∃ n, e = .os n ∧ b = .once ∧ b' = .never ∧ Begun p f f') f₁ := by
    refine wp_bind (wp_readAll hI₁ ?_ ?_)
    · rw [hread]
      refine wp_bind (wp_writeAll h₁ hI ?_ ?_)
      · intro f' h hbytes
        exact ⟨hI f' h, rfl, h, hbytes, rfl⟩
      · intro hb e f' h
        exact ⟨e, rfl, hb, rfl, h⟩
    · intro hb e
      exact ⟨e, rfl, hb, rfl, h₁.begun⟩
  refine wp_bind (wp_mono ?_ hcopy)
  rintro b' (e | a) f' h
  · obtain ⟨n, rfl, hb, rfl, hpart⟩ := h
    exact hfail hb n f' hpart
  · obtain ⟨rfl, hpart, hbytes, rfl⟩ := h
    exact wp_protect hpart hbytes hI hok hfail

theorem Relabelled.wf {n : Path → Option Nat} {f f' : Files Path} (h : Relabelled n f f')
    (hn : ∀ q j, n q = some j → j < f.used) : f'.WF := by
  intro q j hj
  rw [h.names] at hj
  rw [h.used]
  exact hn q j hj

theorem update_wf {n : Path → Option Nat} {p : Path} {o : Option Nat} {used : Nat}
    (hn : ∀ q j, n q = some j → j < used) (ho : ∀ j, o = some j → j < used) (q : Path) (j : Nat)
    (h : Function.update n p o q = some j) : j < used := by
  by_cases hq : q = p
  · subst hq
    rw [Function.update_self] at h
    exact ho j h
  · rw [Function.update_of_ne hq] at h
    exact hn q j h

theorem Begun.wf {p : Path} {f f' : Files Path} (h : Begun p f f') (hwf : f.WF) : f'.WF := by
  intro q j hj
  rw [h.names] at hj
  rw [h.used]
  refine update_wf (fun q j hq => Nat.lt_succ_of_lt (hwf q j hq)) ?_ q j hj
  rintro j hu
  cases hu
  exact Nat.lt_succ_self _

/-! ### Metadata -/

theorem wp_onOsError {p : Prog F α} {cleanup : Prog F Unit}
    {Q : Faults → Except Exc α → Files Path → Prop}
    (h : wp (machine uuid allowed) I p b (fun b' r f' =>
      match r with
      | .ok a => Q b' (.ok a) f'
      | .error (.os e) => wp (machine uuid allowed) I cleanup b' (fun b'' r' f'' =>
          match r' with
          | .ok _ => I f'' ∧ Q b'' (.error (.os e)) f''
          | .error e' => Q b'' (.error e') f'') f'
      | .error e => I f' ∧ Q b' (.error e) f') f) :
    wp (machine uuid allowed) I (onOsError p cleanup) b Q f := by
  refine wp_orElse (wp_mono ?_ h)
  rintro b' (e | a) f' hr
  · cases e with
    | os n =>
        refine wp_bind (wp_mono ?_ hr)
        rintro b'' (e' | _) f'' hc
        · exact hc
        · exact hc
    | unicode => exact hr
    | jsonDecode => exact hr
    | value => exact hr
    | type => exact hr
    | error kind text => exact hr
  · exact hr

/-- The names are as before and so are the files. -/
structure Unchanged (f f' : Files Path) : Prop where
  names : f'.names = f.names
  keeps : f.Keeps f'

theorem Unchanged.refl (f : Files Path) : Unchanged f f := ⟨rfl, .refl f⟩

theorem Unchanged.wf {f f' : Files Path} (h : Unchanged f f') (hwf : f.WF) : f'.WF := by
  intro q j hj
  rw [h.names] at hj
  exact lt_of_lt_of_le (hwf q j hj) h.keeps.used

/-- A temporary file is taken away again. -/
theorem Begun.discard {t : Path} {f f' f'' : Files Path} (ht : f.names t = none)
    (h : Begun t f f') (h' : Relabelled (Function.update f'.names t none) f' f'') :
    Unchanged f f'' := by
  refine ⟨?_, h.old.keeps.trans h'.keeps⟩
  rw [h'.names, h.names, Function.update_idem, ← ht, Function.update_eq_self]

theorem Begun.notDirectory {t : Path} {f f' : Files Path} (h : Begun t f f') {i : Nat}
    (hi : f'.names t = some i) : (f'.nodes i).kind ≠ .directory := by
  rw [h.names, Function.update_self] at hi
  cases hi
  rw [h.kind]
  simp

theorem wp_writeTemporary {t : Path} {data : Bytes}
    {Q : Faults → Except Exc Unit → Files Path → Prop} (ht : f.names t = none) (hI₀ : I f)
    (hI : ∀ f', Begun t f f' → I f') (hIback : ∀ f', Unchanged f f' → I f')
    (hok : ∀ f', Written t data f f' → Q b (.ok ()) f')
    (hfail : b = .once → ∀ e f', Unchanged f f' → Q .never (.error (.os e)) f') :
    wp (machine uuid allowed) I (writeTemporary t data) b Q f := by
  refine wp_bind (wp_openNew ht hI₀ ?_ (fun hb e => hfail hb e f (.refl f)))
  intro f₁ h₁
  refine ⟨hI f₁ h₁.begun, wp_onOsError ?_⟩
  have hcleanup : b = .once → ∀ e f', Begun t f f' →
      wp (machine uuid allowed) I (unlinkMissingOk t) .never (fun b'' r' f'' =>
        match r' with
        | .ok _ => I f'' ∧ Q b'' (.error (.os e)) f''
        | .error e' => Q b'' (.error e') f'') f' := by
    intro hb e f' h
    refine wp_unlinkMissingOk (fun i hi => h.notDirectory hi) (hI f' h) ?_
    intro f'' h''
    have hback := h.discard ht h''
    exact ⟨hIback f'' hback, hIback f'' hback, hfail hb e f'' hback⟩
  refine wp_bind (wp_writeAll h₁ hI ?_ hcleanup)
  intro f' h hbytes
  exact wp_protect h hbytes hI hok hcleanup

/-- The file named `dst` is new and has the given contents. -/
structure Replaced (dst : Path) (data : Bytes) (f f' : Files Path) : Prop where
  names : f'.names = Function.update f.names dst (some f.used)
  used : f'.used = f.used + 1
  keeps : f.Keeps f'
  kind : (f'.nodes f.used).kind = .regular
  bytes : (f'.nodes f.used).bytes = data

theorem Replaced.wf {dst : Path} {data : Bytes} {f f' : Files Path} (h : Replaced dst data f f')
    (hwf : f.WF) : f'.WF := by
  intro q j hj
  rw [h.names] at hj
  rw [h.used]
  refine update_wf (fun q j hq => Nat.lt_succ_of_lt (hwf q j hq)) ?_ q j hj
  rintro j hu
  cases hu
  exact Nat.lt_succ_self _

theorem Replaced.relabelled {dst : Path} {data : Bytes} {f f' f'' : Files Path}
    (h : Replaced dst data f f') (h' : Relabelled f'.names f' f'') : Replaced dst data f f'' := by
  have hnode := h'.keeps.nodes f.used (by rw [h.used]; exact Nat.lt_succ_self _)
  exact ⟨h'.names.trans h.names, h'.used.trans h.used, h.keeps.trans h'.keeps,
    hnode.kind.trans h.kind, hnode.bytes.trans h.bytes⟩

/-- The complete temporary file gets its name, in one step. -/
theorem wp_commitTemporary {t dst : Path} {data : Bytes} {f₀ : Files Path}
    {Q : Faults → Except Exc Unit → Files Path → Prop} (ht : f₀.names t = none) (hne : dst ≠ t)
    (hdst : ∀ j, f₀.names dst = some j → j < f₀.used ∧ (f₀.nodes j).kind = .regular)
    (hf : Written t data f₀ f) (hI : ∀ f', Begun t f₀ f' → I f')
    (hIback : ∀ f', Unchanged f₀ f' → I f') (hIdone : ∀ f', Replaced dst data f₀ f' → I f')
    (hok : ∀ b' f', Spent allowed b b' → Replaced dst data f₀ f' → Q b' (.ok ()) f')
    (hfail : b = .once → ∀ e f', Unchanged f₀ f' ∨ Replaced dst data f₀ f' →
      Q .never (.error (.os e)) f') :
    wp (machine uuid allowed) I (commitTemporary t dst) b Q f := by
  have htmp : f.names t = some f₀.used := by rw [hf.names, Function.update_self]
  have hI₀ : I f := hI f hf.begun
  refine wp_onOsError (wp_bind (wp_replace htmp ?_ hI₀ ?_ ?_))
  · intro j hj
    rw [hf.names, Function.update_of_ne hne] at hj
    obtain ⟨hlt, hk⟩ := hdst j hj
    refine ⟨Nat.ne_of_lt hlt, ?_⟩
    rw [hf.old.nodes j hlt, hk]
    simp
  · intro f₁ h₁
    have hdone : Replaced dst data f₀ f₁ := by
      have hnode := h₁.keeps.nodes f₀.used (by rw [hf.used]; exact Nat.lt_succ_self _)
      refine ⟨?_, h₁.used.trans hf.used, hf.old.keeps.trans h₁.keeps, hnode.kind.trans hf.kind,
        hnode.bytes.trans hf.bytes⟩
      rw [h₁.names, hf.names, Function.update_idem, ← ht, Function.update_eq_self]
    have hmode : (f₁.nodes f₀.used).mode = 0o600 :=
      (h₁.keeps.nodes f₀.used (by rw [hf.used]; exact Nat.lt_succ_self _)).mode.trans hf.mode
    have hnamed : f₁.names dst = some f₀.used := by rw [hdone.names, Function.update_self]
    -- the temporary name is gone by now, and the cleanup finds nothing to do
    have hcleanup : ∀ f', Replaced dst data f₀ f' → b = .once → ∀ e,
        wp (machine uuid allowed) I (unlinkMissingOk t) .never (fun b'' r' f'' =>
          match r' with
          | .ok _ => I f'' ∧ Q b'' (.error (.os e)) f''
          | .error e' => Q b'' (.error e') f'') f' := by
      intro f' h hb e
      have hgone : f'.names t = none := by rw [h.names, Function.update_of_ne hne.symm, ht]
      refine wp_unlinkMissingOk (fun i hi => by simp [hgone] at hi) (hIdone f' h) ?_
      intro f'' h''
      rw [← hgone, Function.update_eq_self] at h''
      have hdone' := h.relabelled h''
      exact ⟨hIdone f'' hdone', hIdone f'' hdone', hfail hb e f'' (.inr hdone')⟩
    refine ⟨hIdone f₁ hdone, wp_bind (wp_chmod hnamed hmode (hIdone f₁ hdone) ?_
      (fun hb e => hcleanup f₁ hdone hb e))⟩
    intro f₂ h₂
    have hdone₂ := hdone.relabelled h₂
    refine ⟨hIdone f₂ hdone₂, wp_fsyncDirectory (hIdone f₂ hdone₂) ?_ ?_⟩
    · intro b' hb'
      exact hok b' f₂ hb' hdone₂
    · intro hb e _ _ _
      exact hcleanup f₂ hdone₂ hb e
  · intro hb e
    refine wp_unlinkMissingOk (fun i hi => hf.begun.notDirectory hi) hI₀ ?_
    intro f' h'
    have hback := hf.begun.discard ht h'
    exact ⟨hIback f' hback, hIback f' hback, hfail hb e f' (.inl hback)⟩

theorem wp_uuid4 {Q : Faults → Except Exc PyStr → Files Path → Prop} (hI : I f)
    (hok : Q b (.ok uuid) f) : wp (machine uuid allowed) I (ask (.uuid4 : Call F)) b Q f := by
  refine wp_ask (c := .uuid4) hI ?_ (fun _ _ h => h.elim)
  rintro r f' ⟨rfl, rfl⟩
  exact ⟨hI, hok⟩

theorem wp_token {Q : Faults → Except Exc PyStr → Files Path → Prop} (hI : I f)
    (hok : ∀ token, FreshToken f token → Q b (.ok token) f) :
    wp (machine uuid allowed) I (ask (.token : Call F)) b Q f := by
  refine wp_ask (c := .token) hI ?_ (fun _ _ h => h.elim)
  rintro r f' ⟨rfl, token, hfresh, rfl⟩
  exact ⟨hI, hok token hfresh⟩

end Rules

section Metadata

variable [FloatNum F] {m : Manager} {uuid : PyStr} {allowed : Call F → Exc → Prop}
  {I : Files Path → Prop} {b : Faults} {f : Files Path} {r : QuarantineRecord F} {id : PyStr}

theorem metadataPath_ne_temporary (m : Manager) (id id' token : PyStr)
    (h : id.length = id'.length) : m.metadataPath id ≠ m.metadataTemporary id' token := by
  intro he
  have hlen := congrArg (fun p => p.name.length) he
  simp [Manager.metadataPath, Manager.metadataTemporary, metadataName, temporaryName, py] at hlen
  omega

/-- The bytes `_write_metadata_atomic` writes for the record, where it writes any. -/
def Encodes (r : QuarantineRecord F) (data : Bytes) : Prop :=
  validateRecord r = .ok () ∧ encodeRecord r = .ok data

/-- A metadata path that can be written: free, or a regular file. -/
def Writable (f : Files Path) (p : Path) : Prop :=
  ∀ j, f.names p = some j → j < f.used ∧ (f.nodes j).kind = .regular

theorem wp_checkDestination {dst : Path} {Q : Faults → Except Exc Unit → Files Path → Prop}
    (hdst : Writable f dst) (hI : I f) (hok : ∀ b', Spent allowed b b' → Q b' (.ok ()) f)
    (hfail : b = .once → ∀ e, Q .never (.error (.os e)) f) :
    wp (machine uuid allowed) I (checkDestination dst) b Q f := by
  refine wp_bind (wp_lexists hI ?_ ?_)
  · cases hj : f.names dst with
    | none => exact ⟨hI, hok b (.refl _ _)⟩
    | some j =>
        refine wp_bind (wp_lstat hj hI ?_ hfail)
        exact wp_check hI (fun _ => hok b (.refl _ _)) (fun h => absurd (hdst j hj).2 h)
  · intro hb e hallowed
    exact ⟨hI, hok _ (.tolerated hb hallowed trivial)⟩

/-- **The metadata write.** The record gets a new, complete file, or nothing changes; a failure after
    the rename leaves the new file. -/
theorem wp_writeMetadataAtomic {Q : Faults → Except Exc Unit → Files Path → Prop}
    (hid : r.quarantineId = .str id) (huuid : isUuid id = true)
    (hdst : Writable f (m.metadataPath id))
    (hI : ∀ token f', FreshToken f token → Begun (m.metadataTemporary id token) f f' → I f')
    (hIback : ∀ f', Unchanged f f' → I f')
    (hIdone : ∀ data f', Encodes r data → Replaced (m.metadataPath id) data f f' → I f')
    (hok : ∀ b' data f', Spent allowed b b' → Encodes r data →
      Replaced (m.metadataPath id) data f f' → Q b' (.ok ()) f')
    (hraise : ∀ b' e f', (b = .once ∨ ∀ data, ¬ Encodes r data) →
      (Unchanged f f' ∨ ∃ data, Encodes r data ∧ Replaced (m.metadataPath id) data f f') →
      Q b' (.error e) f') :
    wp (machine uuid allowed) I (writeMetadataAtomic m r) b Q f := by
  have hI₀ : I f := hIback f (.refl f)
  refine wp_bind (wp_lift hI₀ ?_)
  cases hvalid : validateRecord r with
  | error e =>
      exact hraise b e f (.inr fun data h => by simp [Encodes, hvalid] at h) (.inl (.refl f))
  | ok _ =>
  refine wp_bind (wp_lift hI₀ ?_)
  rw [hid, validateQuarantineId_of_isUuid huuid]
  refine wp_bind (wp_checkDestination hdst hI₀ ?_
    (fun hb e => hraise _ _ f (.inl hb) (.inl (.refl f))))
  intro b₁ hb₁
  refine wp_bind (wp_lift hI₀ ?_)
  cases hdata : encodeRecord r with
  | error e =>
      exact hraise b₁ e f (.inr fun data h => by simp [Encodes, hdata] at h) (.inl (.refl f))
  | ok data =>
  have henc : Encodes r data := ⟨hvalid, hdata⟩
  refine wp_bind (wp_token hI₀ ?_)
  intro token hfresh
  have ht : f.names (m.metadataTemporary id token) = none := hfresh.2 _ _
  refine wp_bind (wp_writeTemporary (t := m.metadataTemporary id token) ht hI₀
    (fun f' h => hI token f' hfresh h) hIback ?_ ?_)
  · intro f₁ h₁
    refine wp_commitTemporary ht (metadataPath_ne_temporary m id id token rfl) hdst h₁
      (fun f' h => hI token f' hfresh h) hIback (fun f' h => hIdone data f' henc h) ?_ ?_
    · intro b' f' hb' h
      exact hok b' data f' (hb₁.trans hb') henc h
    · intro hb e f' h
      exact hraise .never _ f' (.inl (hb₁.once hb)) (h.imp_right fun h => ⟨data, henc, h⟩)
  · intro hb e f' h
    exact hraise .never _ f' (.inl (hb₁.once hb)) (.inl h)

end Metadata

/-! ### Opening a file -/

section Opening

variable [PyFloat F] {m : Manager} {uuid : PyStr} {allowed : Call F → Exc → Prop}
  {I : Files Path → Prop} {b : Faults} {f : Files Path}

/-- `_open_regular_nofollow` of a name that leads to a file. Nothing changes; a regular file is
    opened unless a call fails. -/
theorem wp_openRegularNofollow {p : Path} {i : Nat}
    {Q : Faults → Except Exc (Nat × Stat) → Files Path → Prop} (hp : f.names p = some i) (hI : I f)
    (hok : (f.nodes i).kind = .regular → Q b (.ok (i, f.stat i)) f)
    (hraise : ∀ b' e, b = .once ∨ (f.nodes i).kind ≠ .regular → Q b' (.error e) f) :
    wp (machine uuid allowed) I (openRegularNofollow m p) b Q f := by
  refine ⟨hI, ?_, ?_⟩
  · rintro r f' ⟨r₀, ⟨rfl, rfl⟩, rfl⟩
    rw [hp]
    by_cases hs : (f'.nodes i).kind = .symlink
    · simp only [hs, if_true]
      exact ⟨hI, hraise _ _ (.inr (by simp [hs]))⟩
    · simp only [if_neg hs]
      refine wp_bind (wp_fstat hI ?_ (fun hb e => hraise _ _ (.inl hb)))
      refine wp_bind (wp_check hI ?_ (fun h => hraise _ _ (.inr h)))
      intro hk
      refine wp_bind (wp_lstat hp hI ?_ (fun hb e => hraise _ _ (.inl hb)))
      refine wp_bind (wp_check hI ?_ (fun h => absurd hs h))
      intro _
      refine wp_bind (wp_check hI ?_ (fun h => absurd ⟨rfl, rfl⟩ h))
      intro _
      exact ⟨hI, hok hk⟩
  · rintro e hb ⟨⟨n, rfl⟩, -⟩
    cases n with
    | loop => exact ⟨hI, hraise _ _ (.inl hb)⟩
    | noEntry => exact ⟨hI, hraise _ _ (.inl hb)⟩
    | «exists» => exact ⟨hI, hraise _ _ (.inl hb)⟩
    | noSyscall => exact ⟨hI, hraise _ _ (.inl hb)⟩
    | invalid => exact ⟨hI, hraise _ _ (.inl hb)⟩
    | readOnly => exact ⟨hI, hraise _ _ (.inl hb)⟩
    | other n => exact ⟨hI, hraise _ _ (.inl hb)⟩

theorem wp_hashFd {fd : Nat} {Q : Faults → Except Exc PyStr → Files Path → Prop} (hI : I f)
    (hok : Q b (.ok (sha256 (f.nodes fd).bytes)) f)
    (hfail : b = .once → ∀ e, Q .never (.error (.os e)) f) :
    wp (machine uuid allowed) I (hashFd fd) b Q f :=
  wp_bind (wp_readAll hI ⟨hI, hok⟩ hfail)

/-- `_assert_fd_unchanged` of a file that has not changed. -/
theorem wp_assertFdUnchanged {fd : Nat} {initial : Stat} {operation : PyStr}
    {Q : Faults → Except Exc Unit → Files Path → Prop} (hsame : initial = f.stat fd) (hI : I f)
    (hok : Q b (.ok ()) f) (hfail : b = .once → ∀ e, Q .never (.error (.os e)) f) :
    wp (machine uuid allowed) I (assertFdUnchanged fd initial operation) b Q f := by
  refine wp_bind (wp_fstat hI (wp_check hI (fun _ => hok) ?_) hfail)
  intro h
  exact absurd (by rw [hsame]; simp) h

/-- `_assert_path_matches_fd` of a name that leads to the opened file. -/
theorem wp_assertPathMatchesFd {p : Path} {fd : Nat} {initial : Stat}
    {Q : Faults → Except Exc Unit → Files Path → Prop} (hp : f.names p = some fd)
    (hk : (f.nodes fd).kind ≠ .symlink) (hdevice : initial.device = (f.nodes fd).device)
    (hinode : initial.inode = fd) (hI : I f) (hok : Q b (.ok ()) f)
    (hfail : b = .once → ∀ e, Q .never (.error (.os e)) f) :
    wp (machine uuid allowed) I (assertPathMatchesFd p fd initial) b Q f := by
  have hid : (f.stat fd).device = initial.device ∧ (f.stat fd).inode = initial.inode :=
    ⟨hdevice.symm, hinode.symm⟩
  refine wp_bind (wp_lstat hp hI ?_ hfail)
  refine wp_bind (wp_fstat hI ?_ hfail)
  refine wp_bind (wp_check hI (fun _ => ?_) (fun h => absurd hk h))
  refine wp_bind (wp_check hI (fun _ => ?_) (fun h => absurd hid h))
  exact wp_check hI (fun _ => hok) (fun h => absurd hid h)

/-- The texts `_detect_file_type` can find for a path: a media type, or what the name suggests. -/
def TypeText (m : Manager) (p : Path) (text : PyStr) : Prop :=
  (∀ c ∈ text, c < 128) ∨ m.guessType p.name = some text

theorem octetStream_typeText (m : Manager) (p : Path) :
    TypeText m p (py "application/octet-stream") := .inl (by decide)

theorem guessType_typeText (m : Manager) (p : Path) :
    TypeText m p ((m.guessType p.name).getD (py "application/octet-stream")) := by
  cases h : m.guessType p.name with
  | none => exact octetStream_typeText m p
  | some text => exact .inr h

/-- `_detect_file_type` finds some type of an existing file; all its failures but those of `magic`
    are tolerated. -/
theorem wp_detectFileType {p : Path} {Q : Faults → Except Exc PyStr → Files Path → Prop} (hI : I f)
    (hok : ∀ b' text, Spent allowed b b' → TypeText m p text → Q b' (.ok text) f)
    (hraise : b = .once → ∀ e, Q .never (.error e) f) :
    wp (machine uuid allowed) I (detectFileType m p) b Q f := by
  have hdone : ∀ b' text, Spent allowed b b' → TypeText m p text →
      wp (machine uuid allowed) I (.done text) b' Q f := fun b' text h ht => ⟨hI, hok b' text h ht⟩
  have hguess := guessType_typeText m p
  refine ⟨hI, ?_, ?_⟩
  · rintro r f₁ ⟨r₀, ⟨rfl, hr⟩, rfl⟩
    cases r₀ with
    | error e => exact hdone b _ (.refl _ _) (octetStream_typeText m p)
    | ok fd =>
        refine ⟨hI, ?_, ?_⟩
        · rintro r f₂ ⟨r₁, ⟨rfl, rfl⟩, rfl⟩
          show wp _ I (if _ then _ else _) b Q _
          split
          · exact hdone b _ (.refl _ _) (.inl (by decide))
          · refine ⟨hI, ?_, ?_⟩
            · rintro r f₃ ⟨rfl, text, htext, rfl⟩
              rcases text with - | (- | ⟨c, detected⟩)
              · exact hdone b _ (.refl _ _) hguess
              · exact hdone b _ (.refl _ _) hguess
              · exact hdone b _ (.refl _ _) (.inl (htext _ rfl))
            · rintro e hb ⟨-, hallowed⟩
              cases e with
              | os n => exact hdone .never _ (.tolerated hb hallowed ⟨n, rfl⟩) hguess
              | unicode | jsonDecode | value | type | error => exact ⟨hI, hraise hb _⟩
        · rintro e hb ⟨-, hallowed⟩
          exact hdone .never _ (.tolerated hb hallowed trivial) (octetStream_typeText m p)
  · rintro e hb ⟨-, hallowed⟩
    exact hdone .never _ (.tolerated hb hallowed trivial) (octetStream_typeText m p)

end Opening

end Elyra.Quarantine
