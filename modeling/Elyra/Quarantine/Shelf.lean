import Elyra.Quarantine.Consistent
import Elyra.Quarantine.Reading
import Elyra.Posix.Interference

set_option autoImplicit false

/-! # An item that threads share

The machine of the manager for threads that work on one item at the same time, and what they can rely on.
Three things can belong to a thread: a file that it has made, a token that it has drawn, and the deletion of
the payload, which belongs to the thread that has given the payload its pending name. A file that has been
the record is never written again, and nobody but its owner touches a temporary file or, while it is being
deleted, the payload.

`guard` says which calls the threads make. What is shown here holds as long as no thread puts a record in
place of one that says `deleted`, except one that says it again. -/

namespace Elyra.Quarantine

open Elyra.Python Elyra.Posix Elyra.Posix.Program

variable {F : Type}

/-! ## The machine -/

/-- The files, the tokens drawn so far, and the files that the record has had. -/
structure Shelf where
  files : Files Path
  drawn : List PyStr
  versions : List Nat

/-- `uuid.uuid4().hex` gives no two calls the same. -/
def Draws : (c : Call F) → Except Exc c.Answer → List PyStr → List PyStr → Prop
  | .token, .ok (token : PyStr), drawn, drawn' => token ∉ drawn ∧ drawn' = token :: drawn
  | _, _, drawn, drawn' => drawn' = drawn

def versionsAfter (p : Path) (f f' : Files Path) (versions : List Nat) : List Nat :=
  if f'.names p = f.names p then versions else versions ++ (f'.names p).toList

/-- The host of threads that make the calls that `guard` lets pass. -/
def shelving [PyFloat F] (m : Manager) (id : PyStr) (guard : Call F → Shelf → Prop) :
    Machine (interface F) Shelf where
  answers c s r s' := guard c s ∧ (machine id fun _ _ => True).answers c s.files r s'.files ∧
    Draws c r s.drawn s'.drawn ∧
    s'.versions = versionsAfter (m.metadataPath id) s.files s'.files s.versions
  fails _ _ := False

/-! ## What belongs to a thread -/

inductive Right where
  | file (u : Nat)
  | token (token : PyStr)
  | deletion

/-- What a call gives to the thread that makes it. -/
def made (m : Manager) (id : PyStr) : (c : Call F) → Except Exc c.Answer → Set Right
  | .file (.openNew _), .ok (u : Nat) => {.file u}
  | .token, .ok (token : PyStr) => {.token token}
  | .file (.rename _ dst), .ok _ => {h | h = .deletion ∧ dst = m.deletePending id}
  | .file (.link _ dst), .ok _ => {h | h = .deletion ∧ dst = m.deletePending id}
  | _, _ => ∅

def Shelf.live (m : Manager) (id : PyStr) (s : Shelf) : Set Right
  | .file u => u < s.files.used
  | .token token => token ∈ s.drawn
  | .deletion => s.files.names (m.payloadPath id) = none ∨
      (s.files.names (m.deletePending id)).isSome = true

@[simp] theorem mem_live_deletion {m : Manager} {id : PyStr} {s : Shelf} :
    .deletion ∈ s.live m id ↔ s.files.names (m.payloadPath id) = none ∨
      (s.files.names (m.deletePending id)).isSome = true := Iff.rfl

/-- What a thread with these rights can rely on. -/
structure Relies (m : Manager) (id : PyStr) (A : Set Right) (s s' : Shelf) : Prop where
  versions : ∀ j ∈ s.versions, j ∈ s'.versions ∧
    (s'.files.nodes j).bytes = (s.files.nodes j).bytes
  own : ∀ u, .file u ∈ A → (s'.files.nodes u).kind = (s.files.nodes u).kind ∧
    (s'.files.nodes u).bytes = (s.files.nodes u).bytes ∧ (u ∈ s'.versions → u ∈ s.versions)
  temporary : ∀ token, token.length = 32 → .token token ∈ A →
    s'.files.names (m.metadataTemporary id token) = s.files.names (m.metadataTemporary id token)
  payload : .deletion ∈ A → s'.files.names (m.payloadPath id) = s.files.names (m.payloadPath id) ∧
    s'.files.names (m.deletePending id) = s.files.names (m.deletePending id)

theorem Relies.refl (m : Manager) (id : PyStr) (A : Set Right) (s : Shelf) : Relies m id A s s :=
  ⟨fun _ hj => ⟨hj, rfl⟩, fun _ _ => ⟨rfl, rfl, fun hu => hu⟩, fun _ _ _ => rfl, fun _ => ⟨rfl, rfl⟩⟩

theorem Relies.trans {m : Manager} {id : PyStr} {A : Set Right} {s s' s'' : Shelf}
    (h : Relies m id A s s') (h' : Relies m id A s' s'') : Relies m id A s s'' := by
  refine ⟨fun j hj => ?_, fun u hu => ?_, fun token hlen htoken => ?_, fun hdeletion => ?_⟩
  · obtain ⟨hj', hbytes⟩ := h.versions j hj
    obtain ⟨hj'', hbytes'⟩ := h'.versions j hj'
    exact ⟨hj'', hbytes'.trans hbytes⟩
  · obtain ⟨hkind, hbytes, hnew⟩ := h.own u hu
    obtain ⟨hkind', hbytes', hnew'⟩ := h'.own u hu
    exact ⟨hkind'.trans hkind, hbytes'.trans hbytes, fun hv => hnew (hnew' hv)⟩
  · exact (h'.temporary token hlen htoken).trans (h.temporary token hlen htoken)
  · obtain ⟨hpayload, hpending⟩ := h.payload hdeletion
    obtain ⟨hpayload', hpending'⟩ := h'.payload hdeletion
    exact ⟨hpayload'.trans hpayload, hpending'.trans hpending⟩

/-! ## The item -/

section Item

variable [FloatNum F] (F) (m : Manager) (id : PyStr) (original : Json F)

/-- The bytes are a record that says `deleted`. -/
def SaysDeleted (data : Bytes) : Prop :=
  ∃ r : QuarantineRecord F, decodeRecord m.str id data = .ok r ∧ hasStatus r (py "deleted") = true

/-- The status of the item is `deleted`. -/
def IsDeleted (f : Files Path) : Prop :=
  ∃ j, f.names (m.metadataPath id) = some j ∧ SaysDeleted F m id (f.nodes j).bytes

/-- The bytes are a record of the item that can be written again. -/
def IsVersion (data : Bytes) : Prop :=
  ∃ r : QuarantineRecord F, decodeRecord m.str id data = .ok r ∧ r.originalPath = original ∧
    ∃ data', Encodes r data'

structure Shelf.Inv (s : Shelf) : Prop where
  wf : s.files.WF
  current : ∃ j ∈ s.versions, s.files.names (m.metadataPath id) = some j
  version : ∀ j ∈ s.versions, j < s.files.used ∧ (s.files.nodes j).kind = .regular ∧
    IsVersion F m id original (s.files.nodes j).bytes
  deleted : ∀ j ∈ s.versions, SaysDeleted F m id (s.files.nodes j).bytes →
    IsDeleted F m id s.files ∧ s.files.names (m.payloadPath id) = none
  kind : ∀ i, s.files.names (m.payloadPath id) = some i ∨
    s.files.names (m.payloadPath id) = none ∧ s.files.names (m.deletePending id) = some i →
      (s.files.nodes i).kind ≠ .directory

def rights : Rights (interface F) Shelf Right where
  made := made m id
  live := Shelf.live m id
  inv := Shelf.Inv F m id original
  rely := Relies m id
  refl := Relies.refl m id
  trans _ _ _ _ := Relies.trans

end Item

/-! ## What a call does -/

/-- What a thread with these rights may do to the files. -/
structure Effect (m : Manager) (id : PyStr) (A : Set Right) (s s' : Shelf) : Prop where
  used : s.files.used ≤ s'.files.used
  kind : ∀ u, u < s.files.used → (s'.files.nodes u).kind = (s.files.nodes u).kind
  bytes : ∀ u, u < s.files.used → (s'.files.nodes u).bytes = (s.files.nodes u).bytes ∨
    .file u ∈ A ∧ u ∉ s.versions
  versions : ∀ j ∈ s.versions, j ∈ s'.versions
  new : ∀ j ∈ s'.versions, j ∈ s.versions ∨ .file j ∈ A
  temporary : ∀ token, token.length = 32 →
    s'.files.names (m.metadataTemporary id token) = s.files.names (m.metadataTemporary id token) ∨
      .token token ∈ A
  payload : s'.files.names (m.payloadPath id) = s.files.names (m.payloadPath id) ∧
    s'.files.names (m.deletePending id) = s.files.names (m.deletePending id) ∨
    .deletion ∈ A ∨ .deletion ∉ s.live m id

section Calls

variable [FloatNum F] {m : Manager} {id : PyStr} {original : Json F} {A new : Set Right} {s s' : Shelf}

theorem Effect.others (h : Effect m id A s s') (hinv : s.Inv F m id original) {B : Set Right}
    (hB : Disjoint B A) (hlive : B ⊆ s.live m id) : Relies m id B s s' := by
  have hnot : ∀ g ∈ B, g ∉ A := fun g hg hg' => Set.disjoint_left.1 hB hg hg'
  refine ⟨fun j hj => ⟨h.versions j hj, ?_⟩, fun u hu => ⟨h.kind u (hlive hu), ?_, ?_⟩, ?_, ?_⟩
  · exact (h.bytes j (hinv.version j hj).1).resolve_right fun hown => hown.2 hj
  · exact (h.bytes u (hlive hu)).resolve_right fun hown => hnot _ hu hown.1
  · exact fun hv => (h.new u hv).resolve_right (hnot _ hu)
  · exact fun token hlen ht => (h.temporary token hlen).resolve_right (hnot _ ht)
  · exact fun hd => h.payload.resolve_right fun hown => hown.elim (hnot _ hd) fun hlost => hlost (hlive hd)

/-- A step that leaves the record alone. -/
theorem Effect.inv (h : Effect m id A s s') (hinv : s.Inv F m id original) (hwf : s'.files.WF)
    (hversions : s'.versions = s.versions)
    (hrecord : s'.files.names (m.metadataPath id) = s.files.names (m.metadataPath id))
    (hpayload : s'.files.names (m.payloadPath id) = s.files.names (m.payloadPath id) ∨
      s'.files.names (m.payloadPath id) = none)
    (hpending : s'.files.names (m.payloadPath id) = none →
      s'.files.names (m.deletePending id) = none ∨
      s'.files.names (m.deletePending id) = s.files.names (m.payloadPath id) ∨
      s.files.names (m.payloadPath id) = none ∧
        s'.files.names (m.deletePending id) = s.files.names (m.deletePending id)) :
    s'.Inv F m id original := by
  have hbytes : ∀ j ∈ s.versions, (s'.files.nodes j).bytes = (s.files.nodes j).bytes := fun j hj =>
    (h.bytes j (hinv.version j hj).1).resolve_right fun hown => hown.2 hj
  refine ⟨hwf, ?_, ?_, ?_, ?_⟩
  · rw [hversions, hrecord]
    exact hinv.current
  · intro j hj
    rw [hversions] at hj
    obtain ⟨hlt, hkind, hversion⟩ := hinv.version j hj
    exact ⟨lt_of_lt_of_le hlt h.used, (h.kind j hlt).trans hkind, by rw [hbytes j hj]; exact hversion⟩
  · intro j hj hmarked
    rw [hversions] at hj
    rw [hbytes j hj] at hmarked
    obtain ⟨-, hnone⟩ := hinv.deleted j hj hmarked
    obtain ⟨⟨k, hk, hdeleted⟩, -⟩ := hinv.deleted j hj hmarked
    obtain ⟨k', hk', hcurrent⟩ := hinv.current
    obtain rfl : k' = k := Option.some.inj (hcurrent.symm.trans hk)
    refine ⟨⟨k', hrecord.trans hk, by rw [hbytes k' hk']; exact hdeleted⟩, ?_⟩
    rcases hpayload with hsame | hgone
    · exact hsame.trans hnone
    · exact hgone
  · intro i hi
    have hbefore : s.files.names (m.payloadPath id) = some i ∨
        s.files.names (m.payloadPath id) = none ∧ s.files.names (m.deletePending id) = some i := by
      rcases hi with hi | ⟨hnone, hi⟩
      · rcases hpayload with hsame | hgone
        · exact .inl (hsame.symm.trans hi)
        · cases hgone.symm.trans hi
      · rcases hpending hnone with hgone | hmoved | ⟨hbefore, hsame⟩
        · cases hgone.symm.trans hi
        · exact .inl (hmoved.symm.trans hi)
        · exact .inr ⟨hbefore, hsame.symm.trans hi⟩
    have hlt : i < s.files.used := hbefore.elim (hinv.wf _ _) fun h => hinv.wf _ _ h.2
    rw [h.kind i hlt]
    exact hinv.kind i hbefore

omit [FloatNum F] in
/-- Where the two names stay. -/
theorem pending_same (hpayload : s'.files.names (m.payloadPath id) = s.files.names (m.payloadPath id))
    (hpending : s'.files.names (m.deletePending id) = s.files.names (m.deletePending id))
    (hnone : s'.files.names (m.payloadPath id) = none) :
    s'.files.names (m.deletePending id) = none ∨
      s'.files.names (m.deletePending id) = s.files.names (m.payloadPath id) ∨
      s.files.names (m.payloadPath id) = none ∧
        s'.files.names (m.deletePending id) = s.files.names (m.deletePending id) :=
  .inr (.inr ⟨hpayload.symm.trans hnone, hpending⟩)

theorem Effect.keeps (h : Effect m id A s s') (hinv : s.Inv F m id original)
    (hinv' : s'.Inv F m id original) (hfile : ∀ u, u < s'.files.used ↔ u < s.files.used ∨ .file u ∈ new)
    (htoken : ∀ token, token ∈ s'.drawn ↔ token ∈ s.drawn ∨ .token token ∈ new)
    (hdeletion : .deletion ∈ s'.live m id ↔ .deletion ∈ s.live m id ∨ .deletion ∈ new)
    (hfresh : ∀ g ∈ new, g ∉ s.live m id) : (rights F m id original).Keeps A new s s' := by
  refine ⟨hinv', ?_, Set.disjoint_left.2 hfresh, fun B => h.others hinv⟩
  ext g
  cases g with
  | file u => exact hfile u
  | token token => exact htoken token
  | deletion => exact hdeletion

theorem Effect.same (hfiles : s'.files = s.files) (hversions : s'.versions = s.versions) :
    Effect m id A s s' := by
  refine ⟨?_, ?_, ?_, ?_, ?_, ?_, .inl ?_⟩
  · rw [hfiles]
  · simp [hfiles]
  · simp [hfiles]
  · simp [hversions]
  · exact fun j hj => .inl (hversions ▸ hj)
  · simp [hfiles]
  · simp [hfiles]

variable {guard : Call F → Shelf → Prop}

omit [FloatNum F] in
/-- A call that only looks. -/
theorem reading_files [PyFloat F] {c : Call F} (hc : Reading c) {r : Except Exc c.Answer}
    {f f' : Files Path} (ha : (machine id fun _ _ => True).answers c f r f') : f' = f := by
  cases c with
  | file c =>
      obtain ⟨r₀, ha, -⟩ := ha
      cases c <;> first | exact ha.1 | exact hc.elim
  | resolve | uuid4 | token | time | utcIso | magic | geteuid => exact ha.1

theorem keeps_reading {c : Call F} (hc : Reading c) {r : Except Exc c.Answer}
    (hinv : s.Inv F m id original) (ha : (shelving m id guard).answers c s r s') :
    (rights F m id original).Keeps A (made m id c r) s s' ∧ s'.files = s.files ∧
      s'.versions = s.versions ∧ .deletion ∉ made m id c r := by
  obtain ⟨-, ha, hdraws, hversions⟩ := ha
  have hfiles := reading_files hc ha
  rw [versionsAfter, if_pos (by rw [hfiles])] at hversions
  have heffect : Effect m id A s s' := .same hfiles hversions
  have hinv' : s'.Inv F m id original := heffect.inv hinv (by rw [hfiles]; exact hinv.wf) hversions
    (by rw [hfiles]) (.inl (by rw [hfiles])) (pending_same (by rw [hfiles]) (by rw [hfiles]))
  have hnothing (hdrawn : s'.drawn = s.drawn) (hmade : made m id c r = ∅) :
      (rights F m id original).Keeps A (made m id c r) s s' ∧ s'.files = s.files ∧
        s'.versions = s.versions ∧ .deletion ∉ made m id c r := by
    rw [hmade]
    refine ⟨heffect.keeps hinv hinv' ?_ ?_ ?_ ?_, hfiles, hversions, Set.notMem_empty _⟩
    · simp [hfiles]
    · simp [hdrawn]
    · simp [hfiles]
    · simp
  cases c with
  | file c =>
      refine hnothing hdraws ?_
      cases c <;> first | rfl | exact hc.elim
  | token =>
      obtain ⟨-, token, -, rfl⟩ := ha
      obtain ⟨hnew, hdrawn⟩ := hdraws
      refine ⟨heffect.keeps hinv hinv' ?_ ?_ ?_ ?_, hfiles, hversions, ?_⟩
      · simp [hfiles, made]
      · intro token'
        rw [hdrawn, List.mem_cons]
        simp only [made, Set.mem_singleton_iff, Right.token.injEq]
        tauto
      · simp [hfiles, made]
      · rintro g rfl
        exact hnew
      · simp [made]
  | resolve | uuid4 | time | utcIso | magic | geteuid => exact hnothing hdraws rfl

theorem versionsAfter_same {p : Path} {f f' : Files Path} (h : f'.names p = f.names p)
    (versions : List Nat) : versionsAfter p f f' versions = versions := if_pos h

/-! ### Making and writing a file -/

/-- The name is none of the item's, or that of a temporary file of the thread. -/
structure Free (m : Manager) (id : PyStr) (A : Set Right) (p : Path) : Prop where
  item : p ∉ m.storeNames id
  temporary : ∀ token, token.length = 32 → p = m.metadataTemporary id token → .token token ∈ A

omit [FloatNum F] in
theorem Free.ne {p q : Path} (h : Free m id A p) (hq : q ∈ m.storeNames id) : q ≠ p := by
  rintro rfl
  exact h.item hq

omit [FloatNum F] in
/-- Elsewhere the names are as before. -/
theorem Free.temporaries {p : Path} (h : Free m id A p) {n : Path → Option Nat} {x : Option Nat}
    {token : PyStr} (hlen : token.length = 32) :
    Function.update n p x (m.metadataTemporary id token) = n (m.metadataTemporary id token) ∨
      .token token ∈ A := by
  by_cases he : m.metadataTemporary id token = p
  · exact .inr (h.temporary token hlen he.symm)
  · exact .inl (Function.update_of_ne he _ _)

theorem keeps_openNew {p : Path} {r : Except Exc Nat} (hp : Free m id A p)
    (hinv : s.Inv F m id original)
    (ha : (shelving m id guard).answers (.file (.openNew p)) s r s') :
    (rights F m id original).Keeps A (made (F := F) m id (.file (.openNew p)) r) s s' ∧
      s'.versions = s.versions ∧
        (r = .error (.os .exists) ∧ s.files.names p ≠ none ∧ s'.files = s.files ∨
          r = .ok s.files.used ∧ s.files.names p = none ∧ Created p s.files s'.files) := by
  obtain ⟨hguard, ⟨r₀, ha, rfl⟩, hdrawn, hversions⟩ := ha
  replace hdrawn : s'.drawn = s.drawn := hdrawn
  cases hn : s.files.names p with
  | some i =>
      simp only [Files.answers, hn] at ha
      obtain ⟨hfiles, rfl⟩ := ha
      rw [versionsAfter_same (by rw [hfiles])] at hversions
      have heffect : Effect m id A s s' := .same hfiles hversions
      have hinv' : s'.Inv F m id original := heffect.inv hinv (by rw [hfiles]; exact hinv.wf)
        hversions (by rw [hfiles]) (.inl (by rw [hfiles])) (pending_same (by rw [hfiles]) (by rw [hfiles]))
      refine ⟨heffect.keeps hinv hinv' ?_ ?_ ?_ ?_, hversions, .inl ⟨rfl, by simp, hfiles⟩⟩
      · simp [hfiles, made, Except.mapError]
      · simp [hdrawn, made, Except.mapError]
      · simp [hfiles, made, Except.mapError]
      · simp [made, Except.mapError]
  | none =>
      have hcreated : r₀ = .ok s.files.used ∧ Created p s.files s'.files := by
        simp only [Files.answers, hn] at ha
        obtain ⟨hr, node, hk, hb, hf⟩ := ha
        rw [hf]
        exact ⟨hr, created_create hk hb⟩
      obtain ⟨rfl, hc⟩ := hcreated
      have hname (q : Path) (hq : q ∈ m.storeNames id) : s'.files.names q = s.files.names q := by
        rw [hc.names, Function.update_of_ne (hp.ne hq)]
      have hpayload := hname _ (payload_mem m id)
      have hpending := hname _ (pending_mem m id)
      have hrecord := hname _ (metadata_mem m id)
      rw [versionsAfter_same hrecord] at hversions
      have heffect : Effect m id A s s' := by
        refine ⟨?_, ?_, ?_, by simp [hversions], fun j hj => .inl (hversions ▸ hj), ?_,
          .inl ⟨hpayload, hpending⟩⟩
        · rw [hc.used]
          exact Nat.le_succ _
        · intro u hu
          rw [hc.old.nodes u hu]
        · intro u hu
          rw [hc.old.nodes u hu]
          exact .inl rfl
        · intro token hlen
          rw [hc.names]
          exact hp.temporaries hlen
      have hwf : s'.files.WF := hc.begun.wf hinv.wf
      refine ⟨heffect.keeps hinv
        (heffect.inv hinv hwf hversions hrecord (.inl hpayload) (pending_same hpayload hpending)) ?_ ?_ ?_ ?_,
        hversions, .inr ⟨rfl, rfl, hc⟩⟩
      · intro u
        rw [hc.used, Nat.lt_succ_iff_lt_or_eq]
        simp [made, Except.mapError]
      · simp [hdrawn, made, Except.mapError]
      · simp [hpayload, hpending, made, Except.mapError]
      · rintro g rfl hlive
        exact lt_irrefl s.files.used hlive

/-- A file changes, whose contents do not matter or are the thread's own. -/
theorem keeps_setNode {u : Nat} {node : Node} (hinv : s.Inv F m id original)
    (hfiles : s'.files = s.files.setNode u node) (hdrawn : s'.drawn = s.drawn)
    (hversions : s'.versions = s.versions) (hkind : node.kind = (s.files.nodes u).kind)
    (hbytes : node.bytes = (s.files.nodes u).bytes ∨ .file u ∈ A ∧ u ∉ s.versions) :
    (rights F m id original).Keeps A ∅ s s' := by
  have hnames : s'.files.names = s.files.names := by rw [hfiles]; rfl
  have hused : s'.files.used = s.files.used := by rw [hfiles]; rfl
  have hnode (v : Nat) : s'.files.nodes v = if v = u then node else s.files.nodes v := by
    rw [hfiles]
    exact Function.update_apply _ _ _ _
  have heffect : Effect m id A s s' := by
    refine ⟨hused.ge, ?_, ?_, by simp [hversions], fun j hj => .inl (hversions ▸ hj), by simp [hnames],
      .inl ⟨by rw [hnames], by rw [hnames]⟩⟩
    · intro v _
      rw [hnode]
      split
      · next hv => rw [hv, hkind]
      · rfl
    · intro v _
      rw [hnode]
      split
      · next hv =>
          subst hv
          exact hbytes
      · exact .inl rfl
  have hwf : s'.files.WF := by
    intro q j hj
    rw [hnames] at hj
    rw [hused]
    exact hinv.wf q j hj
  refine heffect.keeps hinv (heffect.inv hinv hwf hversions (by rw [hnames]) (.inl (by rw [hnames]))
    (pending_same (by rw [hnames]) (by rw [hnames]))) ?_ ?_ ?_ ?_
  · simp [hused]
  · simp [hdrawn]
  · simp [hnames]
  · simp

/-! ### Moving and removing -/

/-- The names change, and not that of the record. -/
theorem keeps_relabelled {n : Path → Option Nat} (hinv : s.Inv F m id original)
    (h : Relabelled n s.files s'.files) (hdrawn : s'.drawn = s.drawn) (hversions : s'.versions = s.versions)
    (hn : ∀ q j, n q = some j → j < s.files.used)
    (hrecord : n (m.metadataPath id) = s.files.names (m.metadataPath id))
    (htemporary : ∀ token, token.length = 32 →
      n (m.metadataTemporary id token) = s.files.names (m.metadataTemporary id token) ∨ .token token ∈ A)
    (hown : n (m.payloadPath id) = s.files.names (m.payloadPath id) ∧
      n (m.deletePending id) = s.files.names (m.deletePending id) ∨
        .deletion ∈ A ∨ .deletion ∉ s.live m id)
    (hpayload : n (m.payloadPath id) = s.files.names (m.payloadPath id) ∨ n (m.payloadPath id) = none)
    (hpending : n (m.payloadPath id) = none → n (m.deletePending id) = none ∨
      n (m.deletePending id) = s.files.names (m.payloadPath id) ∨
      s.files.names (m.payloadPath id) = none ∧
        n (m.deletePending id) = s.files.names (m.deletePending id))
    (hdeletion : (n (m.payloadPath id) = none ∨ (n (m.deletePending id)).isSome = true) ↔
      .deletion ∈ s.live m id ∨ .deletion ∈ new)
    (hnew : ∀ g ∈ new, g = .deletion ∧ .deletion ∉ s.live m id) :
    (rights F m id original).Keeps A new s s' := by
  have heffect : Effect m id A s s' := by
    refine ⟨h.used.ge, fun u hu => (h.keeps.nodes u hu).kind, fun u hu => .inl (h.keeps.nodes u hu).bytes,
      by simp [hversions], fun j hj => .inl (hversions ▸ hj), ?_, ?_⟩
    · rw [h.names]
      exact htemporary
    · rw [h.names]
      exact hown
  have hinv' : s'.Inv F m id original := by
    refine heffect.inv hinv (h.wf hn) hversions ?_ ?_ ?_ <;> rw [h.names]
    · exact hrecord
    · exact hpayload
    · exact hpending
  refine heffect.keeps hinv hinv' ?_ ?_ ?_ ?_
  · intro u
    rw [h.used]
    refine ⟨.inl, fun hu => hu.elim (fun hu => hu) fun hu => ?_⟩
    cases (hnew _ hu).1
  · intro token
    rw [hdrawn]
    refine ⟨.inl, fun ht => ht.elim (fun ht => ht) fun ht => ?_⟩
    cases (hnew _ ht).1
  · rw [mem_live_deletion, h.names]
    exact hdeletion
  · intro g hg
    obtain ⟨rfl, hnot⟩ := hnew g hg
    exact hnot

/-- A name goes that is none of the item's. -/
theorem keeps_unlink_free {p : Path} (hp : Free m id A p) (hinv : s.Inv F m id original)
    (h : Relabelled (Function.update s.files.names p none) s.files s'.files)
    (hdrawn : s'.drawn = s.drawn) (hversions : s'.versions = s.versions) :
    (rights F m id original).Keeps A ∅ s s' := by
  have hname (q : Path) (hq : q ∈ m.storeNames id) :
      Function.update s.files.names p none q = s.files.names q := Function.update_of_ne (hp.ne hq) _ _
  have hpayload := hname _ (payload_mem m id)
  have hpending := hname _ (pending_mem m id)
  refine keeps_relabelled hinv h hdrawn hversions (update_wf hinv.wf (by simp))
    (hname _ (metadata_mem m id)) (fun token hlen => hp.temporaries hlen) (.inl ⟨hpayload, hpending⟩)
    (.inl hpayload) (fun hnone => .inr (.inr ⟨hpayload.symm.trans hnone, hpending⟩)) ?_ (by simp)
  rw [hpayload, hpending]
  simp

omit [FloatNum F] in
theorem temporary_ne (huuid : isUuid id = true) {p : Path} (hp : p ∈ m.storeNames id) {token : PyStr}
    (hlen : token.length = 32) : m.metadataTemporary id token ≠ p := by
  rintro rfl
  exact storeName_not_temporary huuid huuid hp ⟨token, hlen, rfl⟩

/-- The thread that deletes the payload takes one of its two names. -/
theorem keeps_unlink_own {p : Path} (huuid : isUuid id = true)
    (hp : p = m.payloadPath id ∧ (s.files.names (m.payloadPath id)).isSome = true ∧
        s.files.names (m.deletePending id) = s.files.names (m.payloadPath id) ∨
      p = m.deletePending id ∧ s.files.names (m.payloadPath id) = none)
    (hown : .deletion ∈ A) (hinv : s.Inv F m id original)
    (h : Relabelled (Function.update s.files.names p none) s.files s'.files)
    (hdrawn : s'.drawn = s.drawn) (hversions : s'.versions = s.versions) :
    (rights F m id original).Keeps A ∅ s s' := by
  have hmem : p ∈ m.storeNames id := by
    rcases hp with ⟨rfl, -⟩ | ⟨rfl, -⟩
    · exact payload_mem m id
    · exact pending_mem m id
  have hne : m.metadataPath id ≠ p := by
    rcases hp with ⟨rfl, -⟩ | ⟨rfl, -⟩
    · exact (m.payloadPath_ne_metadataPath id).symm
    · exact m.metadataPath_ne_deletePending id
  have hother := m.payloadPath_ne_deletePending id
  refine keeps_relabelled hinv h hdrawn hversions (update_wf hinv.wf (by simp))
    (Function.update_of_ne hne _ _) (fun token hlen => .inl (Function.update_of_ne
      (temporary_ne huuid hmem hlen) _ _)) (.inr (.inl hown)) ?_ ?_ ?_ (by simp)
  · rcases hp with ⟨rfl, -⟩ | ⟨rfl, -⟩
    · exact .inr (Function.update_self _ _ _)
    · exact .inl (Function.update_of_ne hother _ _)
  · rcases hp with ⟨rfl, -, hsame⟩ | ⟨rfl, -⟩
    · exact fun _ => .inr (.inl ((Function.update_of_ne hother.symm _ _).trans hsame))
    · exact fun _ => .inl (Function.update_self _ _ _)
  · rcases hp with ⟨rfl, hsome, hsame⟩ | ⟨rfl, hnone⟩
    · simp [hsame, hsome]
    · simp [Function.update_of_ne hother, hnone]

/-- The payload gets its pending name, and keeps its own for now or loses it. -/
theorem keeps_claim {n : Path → Option Nat} {i : Nat} (huuid : isUuid id = true)
    (hinv : s.Inv F m id original) (hsrc : s.files.names (m.payloadPath id) = some i)
    (hdst : s.files.names (m.deletePending id) = none)
    (hn : n = s.files.names ∨ n = Function.update s.files.names (m.payloadPath id) none)
    (h : Relabelled (Function.update n (m.deletePending id) (some i)) s.files s'.files)
    (hdrawn : s'.drawn = s.drawn) (hversions : s'.versions = s.versions) :
    (rights F m id original).Keeps A {h | h = .deletion ∧ m.deletePending id = m.deletePending id} s s' := by
  have hne := m.payloadPath_ne_deletePending id
  have hfree : .deletion ∉ s.live m id := by simp [hsrc, hdst]
  have hother (q : Path) (hq : q ≠ m.payloadPath id) (hq' : q ≠ m.deletePending id) :
      Function.update n (m.deletePending id) (some i) q = s.files.names q := by
    rw [Function.update_of_ne hq']
    rcases hn with rfl | rfl
    · rfl
    · exact Function.update_of_ne hq _ _
  have hused : i < s.files.used := hinv.wf _ _ hsrc
  refine keeps_relabelled hinv h hdrawn hversions (update_wf ?_ (by simpa using hused)) ?_ ?_
    (.inr (.inr hfree)) ?_ ?_ ?_ ?_
  · rcases hn with rfl | rfl
    · exact hinv.wf
    · exact update_wf hinv.wf (by simp)
  · exact hother _ (m.payloadPath_ne_metadataPath id).symm (m.metadataPath_ne_deletePending id)
  · exact fun token hlen => .inl (hother _ (temporary_ne huuid (payload_mem m id) hlen)
      (temporary_ne huuid (pending_mem m id) hlen))
  · rw [Function.update_of_ne hne]
    rcases hn with rfl | rfl
    · exact .inl rfl
    · exact .inr (Function.update_self _ _ _)
  · rw [Function.update_self, hsrc]
    exact fun _ => .inr (.inl rfl)
  · simp
  · rintro g ⟨rfl, -⟩
    exact ⟨rfl, hfree⟩

/-- A call that fails. -/
theorem keeps_nothing (hinv : s.Inv F m id original) (hfiles : s'.files = s.files)
    (hdrawn : s'.drawn = s.drawn) (hversions : s'.versions = s.versions) :
    (rights F m id original).Keeps A ∅ s s' := by
  refine keeps_relabelled (n := s.files.names) hinv ?_ hdrawn hversions hinv.wf rfl
    (fun _ _ => .inl rfl) (.inl ⟨rfl, rfl⟩) (.inl rfl) (fun hnone => .inr (.inr ⟨hnone, rfl⟩)) (by simp) (by simp)
  rw [hfiles]
  exact .refl _

/-- The payload is to be deleted: `renameat2` gives it its pending name, or refuses. -/
theorem keeps_rename {r : Except Exc Unit} (huuid : isUuid id = true) (hinv : s.Inv F m id original)
    (ha : (shelving m id guard).answers
      (.file (.rename (m.payloadPath id) (m.deletePending id))) s r s') :
    (rights F m id original).Keeps A
      (made (F := F) m id (.file (.rename (m.payloadPath id) (m.deletePending id))) r) s s' ∧
      (r = .ok () → s'.files.names (m.payloadPath id) = none ∧
        (s'.files.names (m.deletePending id)).isSome = true) ∧
      (∀ e, r = .error e → s'.files = s.files ∧ s'.versions = s.versions) := by
  obtain ⟨-, ⟨r₀, ha, rfl⟩, hdrawn, hversions⟩ := ha
  replace hdrawn : s'.drawn = s.drawn := hdrawn
  have hrefused (hfiles : s'.files = s.files) (e : Errno) (hr : r₀ = .error e) :
      (rights F m id original).Keeps A (made (F := F) m id
        (.file (.rename (m.payloadPath id) (m.deletePending id))) (r₀.mapError Exc.os)) s s' ∧
      (r₀.mapError Exc.os = .ok () → s'.files.names (m.payloadPath id) = none ∧
        (s'.files.names (m.deletePending id)).isSome = true) ∧
      (∀ e, r₀.mapError Exc.os = .error e → s'.files = s.files ∧ s'.versions = s.versions) := by
    subst hr
    rw [versionsAfter_same (by rw [hfiles])] at hversions
    exact ⟨keeps_nothing hinv hfiles hdrawn hversions, (fun hr => by cases hr),
      fun _ _ => ⟨hfiles, hversions⟩⟩
  cases hsrc : s.files.names (m.payloadPath id) with
  | none =>
      simp only [Files.answers, hsrc] at ha
      rcases ha with ⟨hfiles, hr | hr⟩ | ⟨hfiles, hr⟩ <;> exact hrefused hfiles _ hr
  | some i =>
  cases hdst : s.files.names (m.deletePending id) with
  | some k =>
      simp only [Files.answers, hsrc, hdst] at ha
      rcases ha with ⟨hfiles, hr | hr⟩ | ⟨hfiles, hr⟩ <;> exact hrefused hfiles _ hr
  | none =>
      simp only [Files.answers, hsrc, hdst] at ha
      rcases ha with ⟨hfiles, hr | hr⟩ | ⟨rfl, ctime, hfiles⟩
      · exact hrefused hfiles _ hr
      · exact hrefused hfiles _ hr
      · have hmoved : Relabelled (Function.update (Function.update s.files.names (m.payloadPath id) none)
            (m.deletePending id) (some i)) s.files s'.files := by
          rw [hfiles]
          exact relabelled_setNode ((relabelled_setName s.files _ none).trans
            (relabelled_setName (s.files.setName _ none) _ (some i)))
            ⟨rfl, rfl, rfl, rfl, rfl, rfl, rfl⟩
        have hrecord : s'.files.names (m.metadataPath id) = s.files.names (m.metadataPath id) := by
          rw [hmoved.names, Function.update_of_ne (m.metadataPath_ne_deletePending id),
            Function.update_of_ne (m.payloadPath_ne_metadataPath id).symm]
        rw [versionsAfter_same hrecord] at hversions
        refine ⟨keeps_claim huuid hinv hsrc hdst (.inr rfl) hmoved hdrawn hversions, fun _ => ?_,
          fun _ hr => by cases hr⟩
        rw [hmoved.names, Function.update_of_ne (m.payloadPath_ne_deletePending id),
          Function.update_self, Function.update_self]
        exact ⟨rfl, rfl⟩

/-- Where `renameat2` is missing, the link gives the payload its pending name, or is refused. -/
theorem keeps_link {r : Except Exc Unit} (huuid : isUuid id = true) (hinv : s.Inv F m id original)
    (ha : (shelving m id guard).answers
      (.file (.link (m.payloadPath id) (m.deletePending id))) s r s') :
    (rights F m id original).Keeps A
      (made (F := F) m id (.file (.link (m.payloadPath id) (m.deletePending id))) r) s s' ∧
      (r = .ok () → (s'.files.names (m.payloadPath id)).isSome = true ∧
        s'.files.names (m.deletePending id) = s'.files.names (m.payloadPath id)) ∧
      (∀ e, r = .error e → s'.files = s.files ∧ s'.versions = s.versions) := by
  obtain ⟨-, ⟨r₀, ha, rfl⟩, hdrawn, hversions⟩ := ha
  replace hdrawn : s'.drawn = s.drawn := hdrawn
  have hrefused (hfiles : s'.files = s.files) (e : Errno) (hr : r₀ = .error e) :
      (rights F m id original).Keeps A (made (F := F) m id
        (.file (.link (m.payloadPath id) (m.deletePending id))) (r₀.mapError Exc.os)) s s' ∧
      (r₀.mapError Exc.os = .ok () → (s'.files.names (m.payloadPath id)).isSome = true ∧
        s'.files.names (m.deletePending id) = s'.files.names (m.payloadPath id)) ∧
      (∀ e, r₀.mapError Exc.os = .error e → s'.files = s.files ∧ s'.versions = s.versions) := by
    subst hr
    rw [versionsAfter_same (by rw [hfiles])] at hversions
    exact ⟨keeps_nothing hinv hfiles hdrawn hversions, (fun hr => by cases hr),
      fun _ _ => ⟨hfiles, hversions⟩⟩
  cases hsrc : s.files.names (m.payloadPath id) with
  | none =>
      simp only [Files.answers, hsrc] at ha
      exact hrefused ha.1 _ ha.2
  | some i =>
  cases hdst : s.files.names (m.deletePending id) with
  | some k =>
      simp only [Files.answers, hsrc, hdst] at ha
      exact hrefused ha.1 _ ha.2
  | none =>
      simp only [Files.answers, hsrc, hdst] at ha
      obtain ⟨rfl, ctime, hfiles⟩ := ha
      have hlinked : Relabelled (Function.update s.files.names (m.deletePending id) (some i))
          s.files s'.files := by
        rw [hfiles]
        exact relabelled_setNode (relabelled_setName s.files _ (some i))
          ⟨rfl, rfl, rfl, rfl, rfl, rfl, rfl⟩
      have hrecord : s'.files.names (m.metadataPath id) = s.files.names (m.metadataPath id) := by
        rw [hlinked.names, Function.update_of_ne (m.metadataPath_ne_deletePending id)]
      rw [versionsAfter_same hrecord] at hversions
      refine ⟨keeps_claim huuid hinv hsrc hdst (.inl rfl) hlinked hdrawn hversions, fun _ => ?_,
          fun _ hr => by cases hr⟩
      rw [hlinked.names, Function.update_of_ne (m.payloadPath_ne_deletePending id),
        Function.update_self, hsrc]
      exact ⟨rfl, rfl⟩

/-! ### The record -/

omit [FloatNum F] in
theorem metadataTemporary_injective {token token' : PyStr}
    (h : m.metadataTemporary id token = m.metadataTemporary id token') : token = token' := by
  have hname := congrArg Path.name h
  simpa [Manager.metadataTemporary, temporaryName] using hname

/-- A complete file of the thread becomes the record. Where the record says `deleted`, so does the new one,
    and the payload is gone by then. -/
theorem keeps_replace {token : PyStr} {u : Nat} {r : Except Exc Unit} (huuid : isUuid id = true)
    (hlen : token.length = 32) (htoken : .token token ∈ A) (hown : .file u ∈ A)
    (hinv : s.Inv F m id original) (hnew : u ∉ s.versions)
    (hsrc : s.files.names (m.metadataTemporary id token) = some u)
    (hkind : (s.files.nodes u).kind = .regular)
    (hversion : IsVersion F m id original (s.files.nodes u).bytes)
    (hpayload : SaysDeleted F m id (s.files.nodes u).bytes → s.files.names (m.payloadPath id) = none)
    (hdeleted : IsDeleted F m id s.files → SaysDeleted F m id (s.files.nodes u).bytes)
    (ha : (shelving m id guard).answers
      (.file (.replace (m.metadataTemporary id token) (m.metadataPath id))) s r s') :
    (rights F m id original).Keeps A ∅ s s' ∧ r = .ok () ∧ u ∈ s'.versions ∧
      (s'.files.nodes u).bytes = (s.files.nodes u).bytes ∧
      s'.files.names (m.payloadPath id) = s.files.names (m.payloadPath id) ∧
      s'.files.names (m.deletePending id) = s.files.names (m.deletePending id) := by
  obtain ⟨-, ⟨r₀, ha, rfl⟩, hdrawn, hversions⟩ := ha
  replace hdrawn : s'.drawn = s.drawn := hdrawn
  obtain ⟨j, hj, hcurrent⟩ := hinv.current
  have hne : j ≠ u := by
    rintro rfl
    exact hnew hj
  have hdirectory : (s.files.nodes j).kind ≠ .directory := by
    rw [(hinv.version j hj).2.1]
    decide
  obtain rfl : r₀ = .ok () := by
    simp only [Files.answers, hsrc, hcurrent, if_neg hne, if_neg hdirectory] at ha
    exact ha.1
  have hmoved := relabelled_replace hsrc (by rw [hcurrent]; simpa using hne) ha
  have hu : u < s.files.used := hinv.wf _ _ hsrc
  have hbytes := (hmoved.keeps.nodes u hu).bytes
  have hrecord : s'.files.names (m.metadataPath id) = some u := by
    rw [hmoved.names, Function.update_self]
  have hname (q : Path) (hq : q ≠ m.metadataPath id) (hq' : q ≠ m.metadataTemporary id token) :
      s'.files.names q = s.files.names q := by
    rw [hmoved.names, Function.update_of_ne hq, Function.update_of_ne hq']
  have hpay := hname _ (m.payloadPath_ne_metadataPath id) (temporary_ne huuid (payload_mem m id) hlen).symm
  have hpend := hname _ (m.metadataPath_ne_deletePending id).symm
    (temporary_ne huuid (pending_mem m id) hlen).symm
  have hlist : s'.versions = s.versions ++ [u] := by
    rw [hversions, versionsAfter, if_neg, hrecord]
    · rfl
    · rw [hrecord, hcurrent, Option.some.injEq]
      exact hne.symm
  have heffect : Effect m id A s s' := by
    refine ⟨hmoved.used.ge, fun v hv => (hmoved.keeps.nodes v hv).kind,
      fun v hv => .inl (hmoved.keeps.nodes v hv).bytes, ?_, ?_, ?_, .inl ⟨hpay, hpend⟩⟩
    · intro v hv
      rw [hlist]
      exact List.mem_append_left _ hv
    · intro v hv
      rw [hlist, List.mem_append, List.mem_singleton] at hv
      exact hv.imp (fun hv => hv) fun hv => by rw [hv]; exact hown
    · intro token' hlen'
      by_cases he : token' = token
      · exact .inr (he ▸ htoken)
      · exact .inl (hname _ (temporary_ne huuid (metadata_mem m id) hlen')
          fun h => he (metadataTemporary_injective h))
  have hold : ∀ v ∈ s.versions, (s'.files.nodes v).bytes = (s.files.nodes v).bytes := fun v hv =>
    (hmoved.keeps.nodes v (hinv.version v hv).1).bytes
  -- a record that says so is the one that is there now
  have hnow (hmarked : SaysDeleted F m id (s.files.nodes u).bytes) :
      IsDeleted F m id s'.files ∧ s'.files.names (m.payloadPath id) = none :=
    ⟨⟨u, hrecord, by rw [hbytes]; exact hmarked⟩, hpay.trans (hpayload hmarked)⟩
  have hinv' : s'.Inv F m id original := by
    refine ⟨?_, ⟨u, by simp [hlist], hrecord⟩, ?_, ?_, ?_⟩
    · exact hmoved.wf (update_wf (update_wf hinv.wf (by simp)) (by simpa using hu))
    · intro v hv
      rw [hlist, List.mem_append, List.mem_singleton] at hv
      rw [hmoved.used]
      rcases hv with hv | rfl
      · obtain ⟨hlt, hk, hver⟩ := hinv.version v hv
        exact ⟨hlt, (hmoved.keeps.nodes v hlt).kind.trans hk, by rw [hold v hv]; exact hver⟩
      · exact ⟨hu, (hmoved.keeps.nodes v hu).kind.trans hkind, by rw [hbytes]; exact hversion⟩
    · intro v hv hmarked
      rw [hlist, List.mem_append, List.mem_singleton] at hv
      rcases hv with hv | rfl
      · rw [hold v hv] at hmarked
        exact hnow (hdeleted (hinv.deleted v hv hmarked).1)
      · rw [hbytes] at hmarked
        exact hnow hmarked
    · intro i hi
      rw [hpay, hpend] at hi
      rw [(hmoved.keeps.nodes i (hi.elim (hinv.wf _ _) fun h => hinv.wf _ _ h.2)).kind]
      exact hinv.kind i hi
  refine ⟨heffect.keeps hinv hinv' ?_ ?_ ?_ (by simp), rfl, by simp [hlist], hbytes, hpay, hpend⟩
  · simp [hmoved.used]
  · simp [hdrawn]
  · simp [hpay, hpend]

end Calls

end Elyra.Quarantine
