import Elyra.Quarantine.Weather
import Elyra.Quarantine.Rollback

set_option autoImplicit false

/-! # Restoring

`restore_file` in all its runs in a storm: any number of calls fail, others write into the payload and
put files of their own at the destination. Until the target is created only others change anything
(`Intrusion`); from then on `Filling` says what the call has done, and the rollback, which nobody
disturbs, works from that. -/

namespace Elyra.Quarantine

open Elyra.Python Elyra.Posix Elyra.Posix.Program

variable {F : Type} {α : Type}

/-! ## What others leave alone -/

/-- Others keep off the metadata files, and have no part in the files the call makes. -/
structure Storm.Respects (o : Storm) (m : Manager) (f₀ : Files Path) : Prop where
  records : ∀ id j, f₀.names (m.metadataPath id) = some j → o.payload ≠ some j
  destination : ∀ id, o.destination ≠ some (m.metadataPath id)
  payload : ∀ κ, o.payload = some κ → κ < f₀.used
  old : o.old ≤ f₀.used

section Loading

variable [FloatNum F] {o : Storm} {uuid : PyStr} {σ : Type} {calm : Machine (interface F) σ}
  {view : Weather → σ} {t : Weather} {m : Manager} {f₀ : Files Path}

/-- The metadata file of the id held the record when the call began. -/
structure Loaded (m : Manager) (f₀ : Files Path) (q : Json F) (id : PyStr) (j : Nat)
    (r : QuarantineRecord F) : Prop where
  id_ok : validateQuarantineId q = .ok id
  named : f₀.names (m.metadataPath id) = some j
  regular : (f₀.nodes j).kind = .regular
  decoded : decodeRecord m.str id (f₀.nodes j).bytes = .ok r

theorem storm_loadMetadata {q : Json F} {Q : Except Exc (QuarantineRecord F) → Weather → Prop}
    {R : Except Exc (QuarantineRecord F) → σ → Prop} (ho : o.Respects m f₀)
    (ht : Intrusion o f₀ t.files)
    (hok : ∀ r id j t', Loaded m f₀ q id j r → Intrusion o f₀ t'.files → Q (.ok r) t')
    (hraise : ∀ e t', Intrusion o f₀ t'.files → Q (.error e) t') :
    survives (stormy o uuid) calm view (loadMetadata m q) Q R t := by
  have hst := stable_intrusion o f₀
  refine survives_bind (storm_lift ?_)
  cases hid : validateQuarantineId q with
  | error e => exact hraise e t ht
  | ok id =>
  have hname : ∀ g, Intrusion o f₀ g → g.names (m.metadataPath id) = f₀.names (m.metadataPath id) :=
    fun g hg => hg.names _ (ho.destination id)
  refine survives_bind (storm_lexists hst ht ?_ ?_)
  · intro g hg
    refine survives_bind (storm_check ?_ (fun _ => hraise _ _ hg))
    intro hfound
    rw [hname g hg] at hfound
    obtain ⟨j, hj⟩ := Option.isSome_iff_exists.1 hfound
    have hsame : ∀ g, Intrusion o f₀ g → (f₀.nodes j).Same (g.nodes j) :=
      fun g hg => hg.nodes j (ho.records id j hj)
    refine survives_bind (storm_sys hst hg ?_ (fun g n hg => hraise _ _ hg))
    rintro g₁ named f₁ hg₁ ⟨rfl, hr⟩
    rw [hname _ hg₁, hj] at hr
    cases hr
    refine survives_bind (storm_check ?_ (fun _ => hraise _ _ hg₁))
    intro hk
    have hreg : (f₀.nodes j).kind = .regular := (hsame _ hg₁).kind.symm.trans hk
    refine survives_bind (survives_orElse (survives_bind (storm_sys hst hg₁ ?_
      (fun g n hg => hraise _ _ hg))))
    rintro g₂ fd f₂ hg₂ ⟨rfl, hr⟩
    have hsym : (f₂.nodes j).kind ≠ .symlink := by rw [(hsame _ hg₂).kind, hreg]; simp
    simp only [hname _ hg₂, hj, if_neg hsym] at hr
    cases hr
    refine storm_sys hst hg₂ ?_ (fun g n hg => hraise _ _ hg)
    rintro g₃ data f₃ hg₃ ⟨rfl, hr⟩
    cases hr
    refine storm_lift ?_
    rw [(hsame _ hg₃).bytes]
    cases hdec : decodeRecord (F := F) m.str id (f₀.nodes j).bytes with
    | error e => exact hraise e _ hg₃
    | ok r => exact hok r id j _ ⟨hid, hj, hreg, hdec⟩ hg₃
  · intro g hg
    exact survives_bind (storm_check (fun h => absurd h (by simp)) (fun _ => hraise _ _ hg))

theorem Loaded.unique {q : Json F} {id id' : PyStr} {j j' : Nat} {r r' : QuarantineRecord F}
    (h : Loaded m f₀ q id j r) (h' : Loaded m f₀ q id' j' r') : id' = id ∧ j' = j ∧ r' = r := by
  have hid : id' = id := Except.ok.inj (h'.id_ok.symm.trans h.id_ok)
  subst hid
  have hj : j' = j := Option.some.inj (h'.named.symm.trans h.named)
  subst hj
  exact ⟨rfl, rfl, Except.ok.inj (h'.decoded.symm.trans h.decoded)⟩

end Loading

/-! ## What the call has done -/

/-- Where the file is restored to. -/
def restoreTarget (m : Manager) (destination : Option PyStr) (originalPath : Json F) :
    Option Path :=
  match destination, originalPath with
  | some d, _ => m.locate (m.expanduser d)
  | none, .str s => m.locate (m.expanduser s)
  | none, _ => none

/-- A name of a temporary metadata file. -/
def IsTemporary (m : Manager) (id : PyStr) (q : Path) : Prop :=
  ∃ token : PyStr, token.length = 32 ∧ q = m.metadataTemporary id token

/-- Only the metadata file of `id` has changed, to one that is `W`, temporary files may have been
    left, and `target` is not looked at. -/
structure Aftermath (o : Storm) (m : Manager) (id : PyStr) (target : Path) (f₀ : Files Path)
    (W : Bytes → Prop) (f : Files Path) : Prop where
  used : f₀.used < f.used
  wf : f.WF
  ne : target ≠ m.metadataPath id
  free : o.destination ≠ some target → f₀.names target = none
  names : ∀ q, q ≠ target → q ≠ m.metadataPath id → o.destination ≠ some q →
    f.names q = f₀.names q ∨ f₀.names q = none ∧ IsTemporary m id q
  record : f.names (m.metadataPath id) = f₀.names (m.metadataPath id) ∨
    ∃ i, f.names (m.metadataPath id) = some i ∧ f₀.used < i ∧ (f.nodes i).kind = .regular ∧
      W (f.nodes i).bytes
  nodes : ∀ i, i < f₀.used → o.payload ≠ some i → (f₀.nodes i).Same (f.nodes i)

/-- The target is a new file like `n`, and leads there unless others have replaced it. -/
structure Filling (o : Storm) (m : Manager) (id : PyStr) (target : Path) (f₀ : Files Path)
    (n : Node) (W : Bytes → Prop) (f : Files Path) : Prop extends
    Aftermath o m id target f₀ W f where
  target : f.names target = some f₀.used ∨
    o.destination = some target ∧ ∀ i, f.names target = some i → i < o.old
  made : n.Same (f.nodes f₀.used)
  regular : n.kind = .regular

section Filling

variable {o : Storm} {m : Manager} {id : PyStr} {target tmp : Path} {f₀ f g : Files Path} {n n' : Node}
  {W W' : Bytes → Prop} {u : Nat}

theorem Aftermath.mono (h : Aftermath o m id target f₀ W f) (hW : ∀ data, W data → W' data) :
    Aftermath o m id target f₀ W' f :=
  { h with record := h.record.imp_right fun ⟨i, hi, hlt, hk, hw⟩ => ⟨i, hi, hlt, hk, hW _ hw⟩ }

theorem Filling.mono (h : Filling o m id target f₀ n W f) (hW : ∀ data, W data → W' data) :
    Filling o m id target f₀ n W' f :=
  { h with toAftermath := h.toAftermath.mono hW }

/-- A number from `f₀.used` on is not that of a file others write into. -/
theorem Storm.Respects.ne_payload (ho : o.Respects m f₀) {i : Nat} (hi : f₀.used ≤ i) :
    o.payload ≠ some i := by
  intro hp
  have := ho.payload i hp
  omega

theorem Filling.intrusion (ho : o.Respects m f₀) (h : Filling o m id target f₀ n W f)
    (hg : Intrusion o f g) : Filling o m id target f₀ n W g where
  used := hg.used ▸ h.used
  ne := h.ne
  free := h.free
  wf := by
    intro q i hi
    rw [hg.used]
    rcases hg.own q with hq | hq
    · exact h.wf q i (hq ▸ hi)
    · exact lt_trans (lt_of_lt_of_le (hq i hi) ho.old) h.used
  names q hq hq' hd := by
    rw [hg.names q hd]
    exact h.names q hq hq' hd
  record := by
    rw [hg.names _ (ho.destination id)]
    refine h.record.imp_right ?_
    rintro ⟨i, hi, hlt, hk, hw⟩
    have hsame := hg.nodes i (ho.ne_payload hlt.le)
    exact ⟨i, hi, hlt, hsame.kind.trans hk, by rw [hsame.bytes]; exact hw⟩
  nodes i hi hp := (h.nodes i hi hp).trans (hg.nodes i hp)
  target := by
    by_cases hd : o.destination = some target
    · rcases hg.own target with hq | hq
      · rw [hq]
        exact h.target
      · exact .inr ⟨hd, hq⟩
    · rw [hg.names target hd]
      exact h.target
  made := h.made.trans (hg.nodes _ (ho.ne_payload le_rfl))
  regular := h.regular

theorem stable_filling (ho : o.Respects m f₀) :
    Stable o (Filling o m id target f₀ n W) := fun _ _ hg h => h.intrusion ho hg

theorem Intrusion.wf (ho : o.Respects m f₀) (hwf : f₀.WF) (hg : Intrusion o f₀ g) : g.WF := by
  intro q i hi
  rw [hg.used]
  rcases hg.own q with hq | hq
  · exact hwf q i (hq ▸ hi)
  · exact lt_of_lt_of_le (hq i hi) ho.old

/-- The target has just been created. -/
theorem Filling.begin (ho : o.Respects m f₀) (hwf : f₀.WF) (hg : Intrusion o f₀ g)
    (hne : target ≠ m.metadataPath id) (hfree : g.names target = none) (h : Created target g f) :
    Filling o m id target f₀ (f.nodes f₀.used) (fun _ => False) f where
  used := by
    have := h.used
    rw [hg.used] at this
    omega
  ne := hne
  free hd := by rw [← hg.names target hd, hfree]
  wf := h.begun.wf (hg.wf ho hwf)
  names q hq _ hd := by
    rw [h.names, Function.update_of_ne hq]
    exact .inl (hg.names q hd)
  record := by
    rw [h.names, Function.update_of_ne hne.symm]
    exact .inl (hg.names _ (ho.destination id))
  nodes i hi hp := by
    rw [h.old.nodes i (by rw [hg.used]; exact hi)]
    exact hg.nodes i hp
  target := by
    rw [h.names, Function.update_self, hg.used]
    exact .inl rfl
  made := .refl _
  regular := by
    rw [← hg.used]
    exact h.kind

/-- Writing into the target. -/
theorem Filling.write (h : Filling o m id target f₀ n W f) (h' : f.OnlyNode f₀.used g)
    (hn : n'.Same (g.nodes f₀.used)) : Filling o m id target f₀ n' W g where
  used := h'.used ▸ h.used
  ne := h.ne
  free := h.free
  wf q i hi := by
    rw [h'.used]
    exact h.wf q i (h'.names ▸ hi)
  names q := by
    rw [h'.names]
    exact h.names q
  record := by
    rw [h'.names]
    refine h.record.imp_right ?_
    rintro ⟨i, hi, hlt, hk⟩
    refine ⟨i, hi, hlt, ?_⟩
    rw [h'.nodes i (by omega)]
    exact hk
  nodes i hi hp := by
    rw [h'.nodes i (by omega)]
    exact h.nodes i hi hp
  target := by
    rw [h'.names]
    exact h.target
  made := hn
  regular := hn.kind.symm.trans (h'.kind.trans (h.made.kind.trans h.regular))

/-! ### Temporary files -/

/-- A temporary name that nothing else is concerned with. -/
structure Spare (o : Storm) (m : Manager) (id : PyStr) (target : Path) (f₀ : Files Path)
    (tmp : Path) : Prop where
  temporary : IsTemporary m id tmp
  ne_target : tmp ≠ target
  ne_record : tmp ≠ m.metadataPath id
  unmeddled : o.destination ≠ some tmp
  free : f₀.names tmp = none

theorem Filling.spare {token : PyStr} (h : Filling o m id target f₀ n W f)
    (hfresh : FreshToken f token)
    (hun : ∀ dir id', o.destination ≠ some ⟨dir, temporaryName id' token⟩) :
    Spare o m id target f₀ (m.metadataTemporary id token) := by
  have hnone : f.names (m.metadataTemporary id token) = none := hfresh.2 _ _
  have hne := (metadataPath_ne_temporary m id id token rfl).symm
  have hne' : m.metadataTemporary id token ≠ target := by
    rcases h.target with ht | ⟨hd, -⟩
    · intro he
      rw [he, ht] at hnone
      exact absurd hnone (by simp)
    · intro he
      exact hun _ _ (he ▸ hd)
  refine ⟨⟨token, hfresh.1, rfl⟩, hne', hne, hun _ _, ?_⟩
  rcases h.names _ hne' hne (hun _ _) with h' | ⟨h', -⟩
  · rw [← h', hnone]
  · exact h'

/-- A temporary name is given or taken away. -/
theorem Filling.relabelled (h : Filling o m id target f₀ n W f) (hs : Spare o m id target f₀ tmp)
    (hk : f.Keeps g) (hwf : g.WF) (hnames : ∀ q, q ≠ tmp → g.names q = f.names q) :
    Filling o m id target f₀ n W g where
  used := lt_of_lt_of_le h.used hk.used
  ne := h.ne
  free := h.free
  wf := hwf
  names q hq hq' hd := by
    by_cases ht : q = tmp
    · subst ht
      exact .inr ⟨hs.free, hs.temporary⟩
    · rw [hnames q ht]
      exact h.names q hq hq' hd
  record := by
    rw [hnames _ hs.ne_record.symm]
    refine h.record.imp_right ?_
    rintro ⟨i, hi, hlt, hreg, hw⟩
    have hsame := hk.nodes i (h.wf _ _ hi)
    exact ⟨i, hi, hlt, hsame.kind.trans hreg, by rw [hsame.bytes]; exact hw⟩
  nodes i hi hp := (h.nodes i hi hp).trans (hk.nodes i (lt_trans hi h.used))
  target := by
    rw [hnames _ hs.ne_target.symm]
    exact h.target
  made := h.made.trans (hk.nodes _ h.used)
  regular := h.regular

/-- A temporary file `u` with the contents. -/
structure Draft (o : Storm) (m : Manager) (id : PyStr) (target : Path) (f₀ : Files Path) (n : Node)
    (tmp : Path) (u : Nat) (data : Bytes) (f : Files Path) : Prop where
  filling : Filling o m id target f₀ n (fun _ => False) f
  named : f.names tmp = some u
  above : f₀.used < u
  kind : (f.nodes u).kind = .regular
  bytes : (f.nodes u).bytes = data

theorem stable_draft {data : Bytes} (ho : o.Respects m f₀) (hs : Spare o m id target f₀ tmp) :
    Stable o (Draft o m id target f₀ n tmp u data) := by
  intro f g hg h
  have hsame := hg.nodes u (ho.ne_payload h.above.le)
  exact ⟨h.filling.intrusion ho hg, (hg.names _ hs.unmeddled).trans h.named, h.above,
    hsame.kind.trans h.kind, hsame.bytes.trans h.bytes⟩

theorem Draft.begin (h : Filling o m id target f₀ n (fun _ => False) f)
    (hs : Spare o m id target f₀ tmp) (hc : Created tmp f g) :
    Draft o m id target f₀ n tmp f.used [] g where
  filling := h.relabelled hs hc.old.keeps (hc.begun.wf h.wf)
    (fun q hq => by rw [hc.names, Function.update_of_ne hq])
  named := by rw [hc.names, Function.update_self]
  above := h.used
  kind := hc.kind
  bytes := hc.bytes

theorem Draft.write {data data' : Bytes} (h : Draft o m id target f₀ n tmp u data f)
    (h' : f.OnlyNode u g) (hbytes : (g.nodes u).bytes = data') :
    Draft o m id target f₀ n tmp u data' g where
  filling :=
    { used := h'.used ▸ h.filling.used
      ne := h.filling.ne
      free := h.filling.free
      wf := fun q i hi => by
        rw [h'.used]
        exact h.filling.wf q i (h'.names ▸ hi)
      names := fun q => by
        rw [h'.names]
        exact h.filling.names q
      record := by
        rw [h'.names]
        exact .inl (h.filling.record.resolve_right fun ⟨_, _, _, _, hw⟩ => hw)
      nodes := fun i hi hp => by
        have := h.above
        rw [h'.nodes i (by omega)]
        exact h.filling.nodes i hi hp
      target := by
        rw [h'.names]
        exact h.filling.target
      made := by
        have := h.above
        rw [h'.nodes _ (by omega)]
        exact h.filling.made
      regular := h.filling.regular }
  named := by rw [h'.names, h.named]
  above := h.above
  kind := h'.kind.trans h.kind
  bytes := hbytes

/-- The temporary file is unlinked. -/
theorem Filling.discard (h : Filling o m id target f₀ n W f) (hs : Spare o m id target f₀ tmp)
    (h' : Relabelled (Function.update f.names tmp none) f g) :
    Filling o m id target f₀ n W g :=
  h.relabelled hs h'.keeps (h'.wf (update_wf h.wf (by simp)))
    (fun q hq => by rw [h'.names, Function.update_of_ne hq])

/-- The metadata file is the new one. -/
structure Renewed (o : Storm) (m : Manager) (id : PyStr) (target : Path) (f₀ : Files Path) (n : Node)
    (W : Bytes → Prop) (f : Files Path) : Prop where
  filling : Filling o m id target f₀ n W f
  record : ∃ i, f.names (m.metadataPath id) = some i ∧ f₀.used < i ∧ (f.nodes i).kind = .regular ∧
    W (f.nodes i).bytes

theorem stable_renewed (ho : o.Respects m f₀) : Stable o (Renewed o m id target f₀ n W) := by
  rintro f g hg ⟨h, i, hi, hlt, hk, hw⟩
  have hsame := hg.nodes i (ho.ne_payload hlt.le)
  exact ⟨h.intrusion ho hg, i, (hg.names _ (ho.destination id)).trans hi, hlt,
    hsame.kind.trans hk, by rw [hsame.bytes]; exact hw⟩

/-- The complete temporary file gets the name of the metadata file. -/
theorem Draft.commit {data : Bytes} (h : Draft o m id target f₀ n tmp u data f)
    (hs : Spare o m id target f₀ tmp) (hW : W data)
    (h' : Relabelled (Function.update (Function.update f.names tmp none) (m.metadataPath id) (some u))
      f g) : Renewed o m id target f₀ n W g := by
  have hu : u < f.used := h.filling.wf _ _ h.named
  have hsame := h'.keeps.nodes u hu
  have hname : ∀ q, q ≠ m.metadataPath id → q ≠ tmp → g.names q = f.names q := by
    intro q hq hq'
    rw [h'.names, Function.update_of_ne hq, Function.update_of_ne hq']
  have hnew : g.names (m.metadataPath id) = some u := by rw [h'.names, Function.update_self]
  have hrecord : ∃ i, g.names (m.metadataPath id) = some i ∧ f₀.used < i ∧
      (g.nodes i).kind = .regular ∧ W (g.nodes i).bytes :=
    ⟨u, hnew, h.above, hsame.kind.trans h.kind, by rw [hsame.bytes, h.bytes]; exact hW⟩
  refine ⟨⟨⟨?_, ?_, h.filling.ne, h.filling.free, ?_, .inr hrecord, ?_⟩, ?_, ?_, h.filling.regular⟩,
    hrecord⟩
  · exact lt_of_lt_of_le h.filling.used h'.keeps.used
  · refine h'.wf (update_wf (update_wf h.filling.wf (by simp)) ?_)
    rintro j hj
    cases hj
    exact hu
  · intro q hq hq' hd
    by_cases ht : q = tmp
    · subst ht
      exact .inr ⟨hs.free, hs.temporary⟩
    · rw [hname q hq' ht]
      exact h.filling.names q hq hq' hd
  · intro i hi hp
    exact (h.filling.nodes i hi hp).trans (h'.keeps.nodes i (lt_trans hi h.filling.used))
  · rw [hname _ h.filling.ne hs.ne_target.symm]
    exact h.filling.target
  · exact h.filling.made.trans (h'.keeps.nodes _ h.filling.used)

end Filling

/-! ## The helpers in a storm -/

section Helpers

variable [FloatNum F] {o : Storm} {uuid : PyStr} {σ : Type} {calm : Machine (interface F) σ}
  {view : Weather → σ} {t : Weather} {m : Manager} {f₀ : Files Path} {id : PyStr} {target : Path}
  {n : Node} {J : Bytes → Files Path → Prop} {data : Bytes}

/-- The write loop takes the assertion from the bytes written before to all bytes. -/
theorem storm_writeLoop {u : Nat} {d : Bytes} {Q : Except Exc Unit → Weather → Prop}
    {R : Except Exc Unit → σ → Prop} (hst : ∀ d, Stable o (J d))
    (hstep : ∀ d x f f', J d f → f.OnlyNode u f' → (f'.nodes u).bytes = (f.nodes u).bytes ++ x →
      (f'.nodes u).device = (f.nodes u).device → J (d ++ x) f') (fuel : Nat)
    (hfuel : data.length ≤ fuel) (hJ : J d t.files)
    (hok : ∀ t', J (d ++ data) t'.files → Q (.ok ()) t')
    (hfail : ∀ e t' d', J d' t'.files → Q (.error e) t') :
    survives (stormy o uuid) calm view (writeLoop fuel u data : Prog F Unit) Q R t := by
  induction fuel generalizing t d data with
  | zero =>
      have hdata : data = [] := List.length_eq_zero_iff.1 (by omega)
      subst hdata
      exact hok t (by rwa [List.append_nil])
  | succ fuel ih =>
      unfold writeLoop
      split
      · next hdata =>
        subst hdata
        exact hok t (by rwa [List.append_nil])
      · next hdata =>
        rintro r ⟨f', fresh⟩ ⟨g, hg, ⟨⟨r₀, ⟨k, mtime, ctime, hk, hpos, rfl, hf'⟩, rfl⟩, -, -⟩ |
          ⟨⟨e, rfl, -⟩, -, ht'⟩⟩
        · have hk0 : k ≠ 0 := hpos hdata
          have hnew : J (d ++ data.take k) f' := by
            subst hf'
            exact hstep _ _ _ _ (hst _ _ _ hg hJ) (Files.onlyNode_setNode rfl)
              (by simp [Files.setNode]) (by simp [Files.setNode])
          show survives _ _ _ (if k = 0 then _ else _) Q R _
          rw [if_neg hk0]
          have hrest : (data.drop k).length ≤ fuel := by
            simp only [List.length_drop]
            omega
          refine ih hrest hnew ?_
          intro t' h
          exact hok t' (by simpa [List.append_assoc] using h)
        · cases ht'
          exact hfail e _ d (hst _ _ _ hg hJ)

/-- A temporary file is taken away, or left. -/
theorem storm_unlinkMissingOk {tmp : Path} {W : Bytes → Prop} {Q : Except Exc Unit → Weather → Prop}
    {R : Except Exc Unit → σ → Prop} (ho : o.Respects m f₀) (hs : Spare o m id target f₀ tmp)
    (h : Filling o m id target f₀ n W t.files)
    (hQ : ∀ x t', Filling o m id target f₀ n W t'.files → Q x t') :
    survives (stormy o uuid) calm view (unlinkMissingOk tmp : Prog F Unit) Q R t := by
  rintro r ⟨f', fresh⟩ ⟨g, hg, ⟨⟨r₀, ha, rfl⟩, -, -⟩ | ⟨⟨e, rfl, -⟩, -, ht'⟩⟩
  · have hg' := h.intrusion ho hg
    cases r₀ with
    | ok a => exact hQ _ _ (hg'.discard hs (relabelled_unlink ha))
    | error e =>
        have hsame : f' = g := answers_error ha
        subst hsame
        cases e <;> exact hQ _ _ hg'
  · cases ht'
    have hg' := h.intrusion ho hg
    dsimp only
    split <;> exact hQ _ _ hg'

/-- A part whose failure takes a temporary file away again. -/
theorem storm_onOsError {tmp : Path} {W : Bytes → Prop} {p : Prog F Unit}
    {Q : Except Exc Unit → Weather → Prop} {R : Except Exc Unit → σ → Prop} (ho : o.Respects m f₀)
    (hs : Spare o m id target f₀ tmp)
    (hfail : ∀ e t', Filling o m id target f₀ n W t'.files → Q (.error e) t')
    (hp : survives (stormy o uuid) calm view p (fun x t' =>
      match x with
      | .ok _ => Q (.ok ()) t'
      | .error _ => Filling o m id target f₀ n W t'.files) (fun _ _ => False) t) :
    survives (stormy o uuid) calm view (onOsError p (unlinkMissingOk tmp)) Q R t := by
  refine survives_orElse (survives_mono ?_ hp)
  rintro (e | a) t' h
  · cases e with
    | os k =>
        refine survives_bind (storm_unlinkMissingOk ho hs h ?_)
        rintro (e | a) t'' h'
        · exact hfail _ _ h'
        · exact hfail _ _ h'
    | unicode => exact hfail _ _ h
    | jsonDecode => exact hfail _ _ h
    | value => exact hfail _ _ h
    | type => exact hfail _ _ h
    | error kind text => exact hfail _ _ h
  · exact h

theorem storm_writeTemporary {tmp : Path} {Q : Except Exc Unit → Weather → Prop}
    {R : Except Exc Unit → σ → Prop} (ho : o.Respects m f₀) (hs : Spare o m id target f₀ tmp)
    (h : Filling o m id target f₀ n (fun _ => False) t.files)
    (hok : ∀ u t', Draft o m id target f₀ n tmp u data t'.files → Q (.ok ()) t')
    (hfail : ∀ e t', Filling o m id target f₀ n (fun _ => False) t'.files → Q (.error e) t') :
    survives (stormy o uuid) calm view (writeTemporary tmp data : Prog F Unit) Q R t := by
  refine survives_bind (storm_sys (stable_filling ho) h ?_ (fun g k hg => hfail _ _ hg))
  intro g u f' hg ha
  obtain ⟨rfl, hfree, hcreated⟩ := created_of_answers ha
  have hdraft := Draft.begin hg hs hcreated
  have hst : ∀ d, Stable o (Draft o m id target f₀ n tmp g.used d) := fun d => stable_draft ho hs
  refine storm_onOsError (W := fun _ => False) (n := n) ho hs hfail ?_
  refine survives_bind (storm_writeLoop (d := []) hst ?_ data.length le_rfl hdraft ?_ ?_)
  · intro d x f f' h h' hbytes _
    exact h.write h' (by rw [hbytes, h.bytes])
  · intro t₁ h₁
    refine survives_bind (storm_sys (hst _) h₁ ?_ (fun g k hg => hg.filling))
    rintro g₁ a f₁ hg₁ ⟨ctime, -, rfl⟩
    have hprot : Draft o m id target f₀ n tmp g.used data (g₁.setNode g.used
        { g₁.nodes g.used with mode := 0o600, ctime := ctime }) := by
      refine hg₁.write (Files.onlyNode_setNode rfl) ?_
      simp only [Files.setNode, Function.update_self]
      exact hg₁.bytes
    refine survives_bind (storm_sys (hst _) hprot ?_ (fun g k hg => hg.filling))
    rintro g₂ a f₂ hg₂ ⟨rfl, -⟩
    exact hok g.used _ hg₂
  · intro e t₁ d' h₁
    exact h₁.filling

theorem storm_commitTemporary {tmp : Path} {u : Nat} {W : Bytes → Prop}
    {Q : Except Exc Unit → Weather → Prop} {R : Except Exc Unit → σ → Prop} (hwf : f₀.WF)
    (ho : o.Respects m f₀) (hs : Spare o m id target f₀ tmp) (hW : W data)
    (h : Draft o m id target f₀ n tmp u data t.files)
    (hok : ∀ t', Renewed o m id target f₀ n W t'.files → Q (.ok ()) t')
    (hfail : ∀ e t', Filling o m id target f₀ n W t'.files → Q (.error e) t') :
    survives (stormy o uuid) calm view (commitTemporary tmp (m.metadataPath id) : Prog F Unit) Q R
      t := by
  have hst : Stable o (Renewed o m id target f₀ n W) := stable_renewed ho
  refine storm_onOsError (W := W) (n := n) ho hs hfail ?_
  refine survives_bind (storm_sys (stable_draft ho hs) h ?_
    (fun g k hg => hg.filling.mono fun _ hf => hf.elim))
  intro g a f' hg ha
  have hne : g.names (m.metadataPath id) ≠ some u := by
    have hold := hg.filling.record.resolve_right fun ⟨_, _, _, _, hw⟩ => hw
    rw [hold]
    intro hu
    have := hwf _ _ hu
    have := hg.above
    omega
  have hnew : Renewed o m id target f₀ n W f' :=
    hg.commit hs hW (relabelled_replace hg.named hne ha)
  refine survives_bind (storm_sys hst hnew ?_ (fun g k hg => hg.filling))
  intro g₁ a f₁ hg₁ ha₁
  obtain ⟨i, hi, hlt, hk, hw⟩ := hg₁.record
  simp only [Files.answers, hi] at ha₁
  obtain ⟨ctime, -, rfl⟩ := ha₁
  have hkeep : Renewed o m id target f₀ n W (g₁.setNode i
      { g₁.nodes i with mode := 0o600, ctime := ctime }) := by
    have hnode : ∀ j, j ≠ i → (g₁.setNode i
        { g₁.nodes i with mode := 0o600, ctime := ctime }).nodes j = g₁.nodes j := by
      intro j hj
      simp [Files.setNode, hj]
    have hrec : ∃ j, g₁.names (m.metadataPath id) = some j ∧ f₀.used < j ∧
        ((g₁.setNode i { g₁.nodes i with mode := 0o600, ctime := ctime }).nodes j).kind = .regular ∧
        W ((g₁.setNode i { g₁.nodes i with mode := 0o600, ctime := ctime }).nodes j).bytes :=
      ⟨i, hi, hlt, by simpa [Files.setNode] using hk, by simpa [Files.setNode] using hw⟩
    refine ⟨{ hg₁.filling with record := .inr hrec, nodes := ?_, made := ?_ }, hrec⟩
    · intro j hj hp
      rw [hnode j (by omega)]
      exact hg₁.filling.nodes j hj hp
    · rw [hnode _ (by omega)]
      exact hg₁.filling.made
  refine survives_mono ?_ (storm_plain (plain_fsyncDirectory .metadata) (returns_true _) hst hkeep)
  rintro (e | a) t' ⟨h', -⟩
  · exact h'.filling
  · exact hok t' h'

/-- `_write_metadata_atomic` after the target has been created. -/
theorem storm_writeMetadataAtomic {r : QuarantineRecord F} {Q : Except Exc Unit → Weather → Prop}
    {R : Except Exc Unit → σ → Prop} (hwf : f₀.WF) (ho : o.Respects m f₀)
    (hid : r.quarantineId = .str id) (huuid : isUuid id = true)
    (h : Filling o m id target f₀ n (fun _ => False) t.files)
    (hok : ∀ t', Renewed o m id target f₀ n (Encodes r) t'.files → Q (.ok ()) t')
    (hfail : ∀ e t', Filling o m id target f₀ n (Encodes r) t'.files → Q (.error e) t') :
    survives (stormy o uuid) calm view (writeMetadataAtomic m r) Q R t := by
  have hst : Stable o (Filling o m id target f₀ n fun _ => False) := stable_filling ho
  have hfail' : ∀ e t', Filling o m id target f₀ n (fun _ => False) t'.files → Q (.error e) t' :=
    fun e t' h => hfail e t' (h.mono fun _ hf => hf.elim)
  refine survives_bind (storm_lift ?_)
  cases hvalid : validateRecord r with
  | error e => exact hfail' e t h
  | ok _ =>
  refine survives_bind (storm_lift ?_)
  rw [hid, validateQuarantineId_of_isUuid huuid]
  refine survives_bind (survives_mono ?_
    (storm_plain (plain_checkDestination (m.metadataPath id)) (returns_true _) hst h))
  rintro (e | a) t₁ ⟨h₁, -⟩
  · exact hfail' e t₁ h₁
  refine survives_bind (storm_lift ?_)
  cases hdata : encodeRecord r with
  | error e => exact hfail' e t₁ h₁
  | ok data =>
  refine survives_bind (storm_ask (c := .token) hst h₁ ?_ (fun g e _ he _ => he.elim))
  rintro g token f' hg ⟨hf, token', hfresh, hr⟩ hun
  cases hr
  subst hf
  have hs := hg.spare hfresh hun
  refine survives_bind (storm_writeTemporary ho hs hg ?_ hfail')
  intro u t₂ h₂
  exact storm_commitTemporary hwf ho hs ⟨hvalid, hdata⟩ h₂ hok hfail

/-- The target is a new file that is so. -/
def Holds (o : Storm) (m : Manager) (id : PyStr) (target : Path) (f₀ : Files Path)
    (P : Node → Prop) (f : Files Path) : Prop :=
  ∃ n, Filling o m id target f₀ n (fun _ => False) f ∧ P n

theorem stable_holds {P : Node → Prop} (ho : o.Respects m f₀) :
    Stable o (Holds o m id target f₀ P) :=
  fun _ _ hg ⟨n, h, hn⟩ => ⟨n, h.intrusion ho hg, hn⟩

omit [FloatNum F] in
/-- Setting attributes of the target. -/
theorem Holds.edit {P P' : Node → Prop} {f f' : Files Path} (h : Holds o m id target f₀ P f)
    (h' : f.OnlyNode f₀.used f') (hP : ∀ n, P n → n.Same (f.nodes f₀.used) → P' (f'.nodes f₀.used)) :
    Holds o m id target f₀ P' f' := by
  obtain ⟨n, hf, hn⟩ := h
  exact ⟨_, hf.write h' (.refl _), hP n hn hf.made⟩

/-- The owner is set, or not. -/
theorem storm_restoreOwnership {uid gid : Json F} {device mode : Nat} {d : Bytes}
    {Q : Except Exc Bool → Weather → Prop} {R : Except Exc Bool → σ → Prop} (ho : o.Respects m f₀)
    (h : Holds o m id target f₀ (fun n => n.bytes = d ∧ n.mode = mode ∧ n.device = device) t.files)
    (hQ : ∀ x t', Holds o m id target f₀
      (fun n => n.bytes = d ∧ n.mode = mode ∧ n.device = device) t'.files → Q x t') :
    survives (stormy o uuid) calm view (restoreOwnershipIfPrivileged f₀.used uid gid) Q R t := by
  have hst : Stable o (Holds o m id target f₀ fun n =>
      n.bytes = d ∧ n.mode = mode ∧ n.device = device) := stable_holds ho
  refine survives_bind (storm_ask (c := .geteuid) hst h ?_ (fun g e _ he _ => he.elim))
  rintro g (euid : Nat) f' hg ⟨hf, k, hr⟩ -
  cases hr
  subst hf
  show survives _ _ _ (if euid = 0 then _ else _) Q R _
  split
  · refine survives_bind (storm_lift ?_)
    cases natArgument uid with
    | error e => exact hQ _ _ hg
    | ok uid =>
    refine survives_bind (storm_lift ?_)
    cases natArgument gid with
    | error e => exact hQ _ _ hg
    | ok gid =>
    refine survives_bind (storm_sys hst hg ?_ (fun g k hg => hQ _ _ hg))
    rintro g₁ a f₁ hg₁ ⟨ctime, -, rfl⟩
    refine hQ _ _ (hg₁.edit (Files.onlyNode_setNode rfl) ?_)
    rintro n ⟨hb, hm, hd⟩ hsame
    simp only [Files.setNode, Function.update_self]
    exact ⟨hsame.bytes.trans hb, hsame.mode.trans hm, hsame.device.trans hd⟩
  · exact hQ _ _ hg

/-- Filling the target: it gets bytes that the record describes, whatever is read, and those of the
    payload if others leave it alone. -/
theorem storm_fillTarget {r : QuarantineRecord F} {fd device : Nat}
    {Q : Except Exc (Nat × Bool) → Weather → Prop} {R : Except Exc (Nat × Bool) → σ → Prop}
    (ho : o.Respects m f₀)
    (h : Holds o m id target f₀ (fun n => n.bytes = [] ∧ n.device = device) t.files)
    (hok : ∀ mode owned t', restoredMode r.originalMode = .ok mode →
      Holds o m id target f₀ (fun n => (describes r (sha256 n.bytes) n.bytes.length = true ∧
        (fd < f₀.used → o.payload ≠ some fd → n.bytes = (f₀.nodes fd).bytes)) ∧
        n.mode = mode ∧ n.device = device) t'.files → Q (.ok (mode, owned)) t')
    (hfail : ∀ e t', Holds o m id target f₀ (fun n => n.device = device) t'.files →
      Q (.error e) t') :
    survives (stormy o uuid) calm view (fillTarget fd f₀.used r) Q R t := by
  have hdev : ∀ {P : Node → Prop} {f}, (∀ n, P n → n.device = device) →
      Holds o m id target f₀ P f → Holds o m id target f₀ (fun n => n.device = device) f :=
    fun hP ⟨n, hf, hn⟩ => ⟨n, hf, hP n hn⟩
  refine survives_bind (survives_bind (storm_sys (stable_holds ho) h ?_
    (fun g k hg => hfail _ _ (hdev (fun n hn => hn.2) hg))))
  rintro g data f' hg ⟨rfl, hread⟩
  have hcopied : fd < f₀.used → o.payload ≠ some fd → data = (f₀.nodes fd).bytes := by
    intro hfd hp
    obtain ⟨n, hf, -⟩ := hg
    exact (Except.ok.inj hread).trans (hf.nodes fd hfd hp).bytes
  -- the bytes that have been written so far
  let J : Bytes → Files Path → Prop := fun d =>
    Holds o m id target f₀ fun n => n.bytes = d ∧ n.device = device
  have hst : ∀ d, Stable o (J d) := fun d => stable_holds ho
  refine survives_bind (storm_writeLoop (J := J) (d := []) hst ?_ data.length le_rfl hg ?_ ?_)
  · rintro d x f f'' hJ h' hbytes hdevice
    refine hJ.edit h' ?_
    rintro n ⟨hb, hd⟩ hmade
    exact ⟨by rw [hbytes, hmade.bytes, hb], by rw [hdevice, hmade.device, hd]⟩
  · intro t₁ h₁
    refine survives_bind (storm_check ?_ (fun _ => hfail _ _ (hdev (fun n hn => hn.2) h₁)))
    intro hdescribes
    refine survives_bind (storm_lift ?_)
    cases hmode : restoredMode r.originalMode with
    | error e => exact hfail _ _ (hdev (fun n hn => hn.2) h₁)
    | ok mode =>
    refine survives_bind (storm_sys (hst _) h₁ ?_
      (fun g k hg => hfail _ _ (hdev (fun n hn => hn.2) hg)))
    rintro g₁ a f₁ hg₁ ⟨ctime, -, rfl⟩
    have h₂ : Holds o m id target f₀
        (fun n => n.bytes = data ∧ n.mode = mode ∧ n.device = device) (g₁.setNode f₀.used
          { g₁.nodes f₀.used with mode := mode, ctime := ctime }) := by
      refine hg₁.edit (Files.onlyNode_setNode rfl) ?_
      rintro n ⟨hb, hd⟩ hmade
      simp only [Files.setNode, Function.update_self]
      exact ⟨hmade.bytes.trans hb, trivial, hmade.device.trans hd⟩
    refine survives_bind (storm_restoreOwnership ho h₂ ?_)
    rintro (e | owned) t₃ h₃
    · exact hfail _ _ (hdev (fun n hn => hn.2.2) h₃)
    refine survives_bind (storm_sys (stable_holds ho) h₃ ?_
      (fun g k hg => hfail _ _ (hdev (fun n hn => hn.2.2) hg)))
    rintro g₄ a f₄ ⟨n, hf, hb, hm, hd⟩ ⟨rfl, -⟩
    exact hok mode owned _ hmode ⟨n, hf, by rw [hb]; exact ⟨hdescribes, hcopied⟩, hm, hd⟩
  · rintro e t₁ d h₁
    exact hfail e t₁ (hdev (fun n hn => hn.2) h₁)

end Helpers

/-! ## The `try` block -/

section Body

variable [FloatNum F] {o : Storm} {uuid : PyStr} {σ : Type} {calm : Machine (interface F) σ}
  {view : Weather → σ} {t : Weather} {m : Manager} {f₀ f : Files Path} {id : PyStr} {target : Path}
  {r : QuarantineRecord F} {destination : Option PyStr}

omit [FloatNum F] in
theorem returns_prepareRestoreTarget (m : Manager) (destination : Option PyStr)
    (original : Json F) :
    Returns (fun target => restoreTarget m destination original = some target)
      (prepareRestoreTarget m destination original) := by
  have hgiven : Returns (fun given => restoreTarget m destination original =
      m.locate (m.expanduser given)) (lift (match destination, original with
        | some d, _ => .ok d
        | none, .str s => .ok s
        | none, _ => .error .type) : Prog F PyStr) := by
    cases destination with
    | some d => exact rfl
    | none => cases original <;> first | exact rfl | trivial
  refine hgiven.bind fun given hgiven => (returns_true _).bind fun _ _ => ?_
  rw [hgiven]
  cases m.locate (m.expanduser given) with
  | none => trivial
  | some target =>
      refine (returns_true _).bind fun _ _ => (returns_true _).bind fun _ _ =>
        (returns_true _).bind fun _ _ => (returns_true _).bind fun _ _ =>
        (returns_true _).bind fun _ _ => (returns_true _).bind fun _ _ => ?_
      exact rfl

/-- The record of the same item. -/
structure SameItem (r r' : QuarantineRecord F) : Prop where
  wf : r.WF → r'.WF
  quarantineId : r'.quarantineId = r.quarantineId
  sha256 : r'.sha256 = r.sha256
  sizeBytes : r'.sizeBytes = r.sizeBytes
  originalMode : r'.originalMode = r.originalMode

omit [FloatNum F] in
theorem SameItem.refl (r : QuarantineRecord F) : SameItem r r := ⟨fun h => h, rfl, rfl, rfl, rfl⟩

omit [FloatNum F] in
theorem sameItem_restoring (r : QuarantineRecord F) (now : F) : SameItem r
    { r with restorationStatus := .str (py "restored"), restoredAt := .float now } := by
  refine ⟨fun hw => ?_, rfl, rfl, rfl, rfl⟩
  rw [QuarantineRecord.wf_iff] at hw ⊢
  simp only [QuarantineRecord.toDict, List.forall_mem_cons] at hw ⊢
  tauto

/-- The record of a file that has been restored. -/
def QuarantineRecord.restoredTo (r : QuarantineRecord F) (target : Path) (now : F) (nowUtc : PyStr)
    (mode : Nat) (owned : Bool) : QuarantineRecord F :=
  { r with
    restorationStatus := .str (py "restored")
    restoredAt := .float now
    restoredAtUtc := .str nowUtc
    restoredPath := .str target.text
    restoredMode := .int mode
    ownershipRestored := .bool owned }

omit [FloatNum F] in
theorem sameItem_restored (r : QuarantineRecord F) (target : Path) (now : F) (nowUtc : PyStr) (mode : Nat)
    (owned : Bool) : SameItem r (r.restoredTo target now nowUtc mode owned) := by
  refine ⟨fun hw => ?_, rfl, rfl, rfl, rfl⟩
  rw [QuarantineRecord.wf_iff] at hw ⊢
  simp only [QuarantineRecord.restoredTo, QuarantineRecord.toDict, List.forall_mem_cons] at hw ⊢
  tauto

/-- This is the record once the file has been restored. -/
def MarksRestored (o : Storm) (r : QuarantineRecord F) (target : Path) (r' : QuarantineRecord F) : Prop :=
  ∃ now nowUtc mode owned, o.clock nowUtc ∧ restoredMode r.originalMode = .ok mode ∧
    r' = r.restoredTo target now nowUtc mode owned

/-- Where others leave it alone, the payload is there, and is what the record tells of. -/
def Verified (o : Storm) (m : Manager) (id : PyStr) (r : QuarantineRecord F) (f₀ : Files Path) : Prop :=
  o.destination ≠ some (m.payloadPath id) → ∃ k, f₀.names (m.payloadPath id) = some k ∧
    (o.payload ≠ some k →
      describes r (sha256 (f₀.nodes k).bytes) (f₀.nodes k).bytes.length = true)

/-- Where an exception leaves the block, with its local variables. -/
def Faulted (o : Storm) (m : Manager) (destination : Option PyStr) (id : PyStr) (f₀ : Files Path)
    (r : QuarantineRecord F) (ℓ : RestoreLocals F) (f : Files Path) : Prop :=
  (Intrusion o f₀ f ∧ ℓ.identity = none ∧ ℓ.record = r) ∨
  SameItem r ℓ.record ∧ Verified o m id r f₀ ∧ ∃ target n,
    restoreTarget m destination r.originalPath = some target ∧
    Filling o m id target f₀ n (fun data => Encodes ℓ.record data ∧ MarksRestored o r target ℓ.record) f ∧
    ℓ.target = some target ∧
    (ℓ.identity = some (n.device, f₀.used) ∨ o.blind = true ∧ ℓ.identity = none ∧ ℓ.record = r)

/-- The file has been restored as `n`, and the record says so. -/
structure Restored (o : Storm) (m : Manager) (id : PyStr) (target : Path) (f₀ : Files Path) (n : Node)
    (r r' : QuarantineRecord F) (f : Files Path) : Prop where
  renewed : Renewed o m id target f₀ n (Encodes r') f
  bytes : describes r (sha256 n.bytes) n.bytes.length = true
  mode : restoredMode r.originalMode = .ok n.mode
  same : SameItem r r'
  marked : MarksRestored o r target r'
  /-- Where others leave the name of the payload alone, it is the payload that has been copied. -/
  copied : o.destination ≠ some (m.payloadPath id) → ∃ k, f₀.names (m.payloadPath id) = some k ∧
    (o.payload ≠ some k → n.bytes = (f₀.nodes k).bytes)

theorem Restored.status {n : Node} {r' : QuarantineRecord F} (h : Restored o m id target f₀ n r r' f) :
    r'.restorationStatus = .str (py "restored") := by
  obtain ⟨now, nowUtc, mode, owned, -, -, rfl⟩ := h.marked
  rfl

theorem Restored.verified {n : Node} {r' : QuarantineRecord F}
    (h : Restored o m id target f₀ n r r' f) : Verified o m id r f₀ := by
  intro hd
  obtain ⟨k, hk, hcopied⟩ := h.copied hd
  refine ⟨k, hk, fun hp => ?_⟩
  rw [← hcopied hp]
  exact h.bytes

omit [FloatNum F] in
/-- A file is opened as what has its name, and looked at. -/
theorem storm_openRegularNofollow [PyFloat F] {p : Path} {Q : Except Exc (Nat × Stat) → Weather → Prop}
    {R : Except Exc (Nat × Stat) → σ → Prop} (h : Intrusion o f₀ t.files)
    (hok : ∀ fd opened t', Intrusion o f₀ t'.files →
      (o.destination ≠ some p → f₀.names p = some fd) →
      (o.payload ≠ some fd → opened.size = (f₀.nodes fd).bytes.length) → Q (.ok (fd, opened)) t')
    (hfail : ∀ e t', Intrusion o f₀ t'.files → Q (.error e) t') :
    survives (stormy o uuid) calm view (openRegularNofollow m p : Prog F (Nat × Stat)) Q R t := by
  have hst := stable_intrusion o f₀
  rintro x ⟨f', fresh⟩ ⟨g, hg, ⟨⟨x₀, ⟨hf', hx₀⟩, rfl⟩, -, -⟩ | ⟨⟨e, rfl, n, rfl⟩, -, ht'⟩⟩
  · obtain rfl : f' = g := hf'
    have hg' := h.trans hg
    cases x₀ with
    | error n => cases n <;> exact hfail _ _ hg'
    | ok fd =>
        have hnamed : o.destination ≠ some p → f₀.names p = some fd := by
          intro hd
          rw [← hg'.names p hd]
          split at hx₀
          · cases hx₀
          · split at hx₀
            · cases hx₀
            · next hn _ =>
              cases hx₀
              exact hn
        refine survives_bind (storm_sys hst hg' ?_ fun g n hg => hfail _ _ hg)
        rintro g₁ opened f₁ hg₁ ⟨rfl, hr⟩
        cases hr
        have hsize : o.payload ≠ some fd → (f₁.stat fd).size = (f₀.nodes fd).bytes.length :=
          fun hp => congrArg List.length (hg₁.nodes fd hp).bytes
        -- what follows only looks
        refine survives_mono ?_ (storm_plain (V := (· = (fd, f₁.stat fd)))
          (.bind (plain_check _ _) fun _ => .bind (plain_sys trivial) fun named =>
            .bind (plain_check _ _) fun _ => .bind (plain_check _ _) fun _ => trivial) ?_ hst hg₁)
        · rintro (e | opening) t₂ ⟨h₂, hopening⟩
          · exact hfail e t₂ h₂
          · rw [hopening opening rfl]
            exact hok fd _ t₂ h₂ hnamed hsize
        · exact (returns_true _).bind fun _ _ => (returns_true _).bind fun _ _ =>
            (returns_true _).bind fun _ _ => (returns_true _).bind fun _ _ => rfl
  · cases ht'
    cases n <;> exact hfail _ _ (h.trans hg)

/-- The payload is opened, and is what the record tells of. -/
theorem storm_openPayload {payload : Path} {Q : Except Exc Nat → Weather → Prop}
    {R : Except Exc Nat → σ → Prop} (h : Intrusion o f₀ t.files)
    (hok : ∀ fd t', Intrusion o f₀ t'.files →
      (o.destination ≠ some payload → f₀.names payload = some fd) →
      (o.payload ≠ some fd →
        describes r (sha256 (f₀.nodes fd).bytes) (f₀.nodes fd).bytes.length = true) → Q (.ok fd) t')
    (hfail : ∀ e t', Intrusion o f₀ t'.files → Q (.error e) t') :
    survives (stormy o uuid) calm view (openPayload m payload r) Q R t := by
  have hst := stable_intrusion o f₀
  refine survives_bind (storm_openRegularNofollow h ?_ hfail)
  intro fd opened t₁ h₁ hnamed hsize
  refine survives_bind (survives_bind (storm_sys hst h₁ ?_ fun g n hg => hfail _ _ hg))
  rintro g₂ data f₂ hg₂ ⟨rfl, hr⟩
  cases hr
  refine survives_bind (survives_mono ?_ (storm_plain (plain_assertFdUnchanged fd opened _)
    (returns_true _) hst hg₂))
  rintro (e | a) t₃ ⟨h₃, -⟩
  · exact hfail e t₃ h₃
  refine survives_bind (storm_check (fun hdescribes => ?_) fun _ => hfail _ _ h₃)
  refine hok fd t₃ h₃ hnamed fun hp => ?_
  rw [← hsize hp, ← (hg₂.nodes fd hp).bytes]
  exact hdescribes

omit [FloatNum F] in
theorem storm_trackingRestore {ℓ : RestoreLocals F} {p : Prog F α} [PyFloat F]
    {Q : Except (Exc × RestoreLocals F) α → Weather → Prop}
    {R : Except (Exc × RestoreLocals F) α → σ → Prop}
    (h : survives (stormy o uuid) calm view p (fun x t' =>
      match x with
      | .ok a => Q (.ok a) t'
      | .error e => Q (.error (e, ℓ)) t') (fun _ _ => False) t) :
    survives (stormy o uuid) calm view (trackingRestore ℓ p) Q R t := by
  refine survives_orElse (survives_mono ?_ h)
  rintro (e | a) t' h'
  · exact h'
  · exact h'

/-- The target is created, or something is there. -/
theorem storm_openExclusiveRestoreTarget {j : Nat} {Q : Except Exc Nat → Weather → Prop}
    {R : Except Exc Nat → σ → Prop} (hwf : f₀.WF) (ho : o.Respects m f₀)
    (hj : f₀.names (m.metadataPath id) = some j) (h : Intrusion o f₀ t.files)
    (hok : ∀ n f', Filling o m id target f₀ n (fun _ => False) f' → n.bytes = [] →
      Q (.ok f₀.used) ⟨f', true⟩)
    (hfail : ∀ e t', Intrusion o f₀ t'.files → Q (.error e) t') :
    survives (stormy o uuid) calm view (openExclusiveRestoreTarget target : Prog F Nat) Q R t := by
  rintro r ⟨f', fresh⟩ ⟨g, hg, ⟨⟨r₀, ha, rfl⟩, -, hfresh⟩ | ⟨⟨e, rfl, -⟩, -, ht'⟩⟩
  · have hg' := h.trans hg
    cases r₀ with
    | ok u =>
        obtain ⟨rfl, hfree, hcreated⟩ := created_of_answers ha
        have hne : target ≠ m.metadataPath id := by
          rintro rfl
          rw [hg'.names _ (ho.destination id), hj] at hfree
          exact absurd hfree (by simp)
        have hnew : fresh = true := hfresh
        subst hnew
        rw [hg'.used]
        refine hok _ f' (Filling.begin ho hwf hg' hne hfree hcreated) ?_
        rw [← hg'.used]
        exact hcreated.bytes
    | error e =>
        have hsame : f' = g := answers_error ha
        subst hsame
        cases e <;> exact hfail _ _ hg'
  · cases ht'
    have hg' := h.trans hg
    dsimp only
    split
    · next heq => exact nomatch heq
    · exact hfail _ _ hg'
    · exact hfail _ _ hg'

/-- **The `try` block in a storm.** It returns with the file restored, or raises in a state its local
    variables describe. -/
theorem storm_restoreBody {q : Json F} {j : Nat}
    {R : Except (Exc × RestoreLocals F) (QuarantineRecord F) → σ → Prop} (hwf : f₀.WF)
    (ho : o.Respects m f₀) (hl : Loaded m f₀ q id j r) (h : Intrusion o f₀ t.files) :
    survives (stormy o uuid) calm view (restoreBody m r (m.payloadPath id) destination) (fun x t' =>
      match x with
      | .ok r' => ∃ target n, restoreTarget m destination r.originalPath = some target ∧
          Restored o m id target f₀ n r r' t'.files
      | .error (_, ℓ) => Faulted o m destination id f₀ r ℓ t'.files) R t := by
  obtain ⟨hrwf, -, hid⟩ := decodeRecord_ok hl.decoded
  have hst := stable_intrusion o f₀
  have hearly : ∀ {ℓ : RestoreLocals F} {g}, ℓ.identity = none → ℓ.record = r → Intrusion o f₀ g →
      Faulted o m destination id f₀ r ℓ g := fun h₁ h₂ hg => .inl ⟨hg, h₁, h₂⟩
  refine survives_bind (storm_trackingRestore (storm_openPayload h ?_ fun e t' h' => hearly rfl rfl h'))
  intro fd t₁ h₁ hnamed hdescribes
  have hverified : Verified o m id r f₀ := fun hd => ⟨fd, hnamed hd, hdescribes⟩
  refine survives_bind (storm_trackingRestore (survives_mono ?_ (storm_plain
    (plain_prepareRestoreTarget m destination r.originalPath)
    (returns_prepareRestoreTarget m destination r.originalPath) hst h₁)))
  rintro (e | target) t₂ ⟨h₂, htarget⟩
  · exact hearly rfl rfl h₂
  have htarget : restoreTarget m destination r.originalPath = some target := htarget target rfl
  refine survives_bind (storm_trackingRestore (storm_openExclusiveRestoreTarget hwf ho hl.named h₂
    ?_ (fun e t' h' => hearly rfl rfl h')))
  intro n₀ f₃ h₃ hempty
  have hfaulted : ∀ {ℓ : RestoreLocals F} {n g},
      Filling o m id target f₀ n (fun data => Encodes ℓ.record data ∧ MarksRestored o r target ℓ.record) g →
      SameItem r ℓ.record → ℓ.target = some target →
      (ℓ.identity = some (n.device, f₀.used) ∨
        o.blind = true ∧ ℓ.identity = none ∧ ℓ.record = r) →
      Faulted o m destination id f₀ r ℓ g := fun hf hsame ht hi =>
    .inr ⟨hsame, hverified, target, _, htarget, hf, ht, hi⟩
  have hearlier : ∀ {r' : QuarantineRecord F} {n g},
      Filling o m id target f₀ n (fun _ => False) g →
      Filling o m id target f₀ n (fun data => Encodes r' data ∧ MarksRestored o r target r') g :=
    fun hf => hf.mono fun _ hw => hw.elim
  refine survives_bind (storm_trackingRestore (storm_fstat_fresh (stable_filling ho) h₃ rfl ?_ ?_))
  swap
  · intro hblind g k hg
    exact hfaulted (hearlier hg) (.refl r) rfl (.inr ⟨hblind, rfl, rfl⟩)
  intro g₃ hg₃
  have hdevice : (g₃.stat f₀.used).device = n₀.device := hg₃.made.device
  have hinode : (g₃.stat f₀.used).inode = f₀.used := rfl
  have hfilling : Holds o m id target f₀ (fun n => n.bytes = [] ∧ n.device = n₀.device) g₃ :=
    ⟨n₀, hg₃, hempty, rfl⟩
  refine survives_bind (storm_trackingRestore (storm_fillTarget ho hfilling ?_ ?_))
  swap
  · rintro e t₄ ⟨n, h₄, hn⟩
    exact hfaulted (hearlier h₄) (.refl r) rfl (.inl (by rw [hdevice, hinode, hn]))
  rintro mode owned t₄ hmode ⟨n, h₄, ⟨hbytes, hcopied⟩, hnmode, hndevice⟩
  have hstn : Stable o (Filling o m id target f₀ n fun _ => False) := stable_filling ho
  refine survives_bind (storm_trackingRestore (storm_sys hstn h₄ ?_ ?_))
  swap
  · intro g k hg
    exact hfaulted (hearlier hg) (.refl r) rfl (.inl (by rw [hdevice, hinode, hndevice]))
  rintro g₅ filled f₅ h₅ ⟨rfl, hr⟩
  cases hr
  have hdevice' : (f₅.stat f₀.used).device = n.device := h₅.made.device
  refine survives_bind (storm_trackingRestore (storm_ask (c := .time) hstn h₅ ?_
    (fun g e _ he _ => he.elim)))
  rintro g₆ (now : F) f₆ h₆ ⟨hf, now', -, hr⟩ -
  cases hr
  subst hf
  have hfault₆ : ∀ {ℓ : RestoreLocals F} {g},
      Filling o m id target f₀ n (fun data => Encodes ℓ.record data ∧ MarksRestored o r target ℓ.record) g →
      SameItem r ℓ.record → ℓ.target = some target →
      ℓ.identity = some ((f₅.stat f₀.used).device, (f₅.stat f₀.used).inode) →
      Faulted o m destination id f₀ r ℓ g := by
    intro ℓ g hf hsame ht hi
    refine hfaulted hf hsame ht (.inl ?_)
    rw [hi, hdevice']
    rfl
  refine survives_bind (storm_trackingRestore (storm_ask (c := .utcIso now) hstn h₆ ?_ ?_))
  swap
  · intro g e hg _ _
    exact hfault₆ (hearlier hg) (sameItem_restoring r now) rfl rfl
  rintro g₇ (nowUtc : PyStr) f₇ h₇ ⟨hf, text, -, hr⟩ hclock
  cases hr
  subst hf
  have hmarks : MarksRestored o r target (r.restoredTo target now nowUtc mode owned) :=
    ⟨now, nowUtc, mode, owned, hclock, hmode, rfl⟩
  refine survives_bind (storm_trackingRestore (survives_bind (storm_writeMetadataAtomic hwf ho hid
    (isUuid_of_validate hl.id_ok) h₇ ?_ ?_)))
  · intro t₈ h₈
    refine survives_mono ?_ (storm_plain (plain_fsyncDirectory (.parent target)) (returns_true _)
      (stable_renewed ho) h₈)
    rintro (e | a) t₉ ⟨h₉, -⟩
    · exact hfault₆ (h₉.filling.mono fun _ henc => ⟨henc, hmarks⟩) (sameItem_restored r target now nowUtc mode owned) rfl rfl
    · refine ⟨target, n, htarget, h₉, hbytes, ?_,
        sameItem_restored r target now nowUtc mode owned, hmarks,
        fun hd => ⟨fd, hnamed hd, hcopied (hwf _ _ (hnamed hd))⟩⟩
      rw [hmode, hnmode]
  · intro e t₈ h₈
    exact hfault₆ (h₈.mono fun _ henc => ⟨henc, hmarks⟩) (sameItem_restored r target now nowUtc mode owned) rfl rfl

end Body

/-! ## The rollback -/

section Rollback

variable [FloatNum F] {o : Storm} {uuid : PyStr} {m : Manager} {f₀ f : Files Path} {id : PyStr}
  {target : Path} {r r' : QuarantineRecord F} {allowed : Call F → Exc → Prop}

/-- The bytes load as the record, its dictionaries in whatever order. -/
def Recalls (m : Manager) (id : PyStr) (r : QuarantineRecord F) (data : Bytes) : Prop :=
  ∃ r', decodeRecord m.str id data = .ok r' ∧
    (Json.obj r'.toDict).sortKeys = (Json.obj r.toDict).sortKeys

/-- The record cannot be written: it has a text that is not UTF-8. -/
def Unwritable (r : QuarantineRecord F) : Prop := ∀ data, ¬ Encodes r data

/-- The record cannot be written again, but one of these can. -/
def Irrevocable (marks : QuarantineRecord F → Prop) (r : QuarantineRecord F) : Prop :=
  Unwritable r ∧ ∃ r' data, marks r' ∧ Encodes r' data

/-- The target is not the call's. -/
def Cleared (o : Storm) (target : Path) (f : Files Path) : Prop :=
  f.names target = none ∨ o.destination = some target ∧ ∀ i, f.names target = some i → i < o.old

/-- The call has been undone. -/
structure Undone (o : Storm) (m : Manager) (id : PyStr) (target : Path) (f₀ : Files Path)
    (r : QuarantineRecord F) (f : Files Path) : Prop where
  aftermath : Aftermath o m id target f₀
    (fun data => Recalls m id r data ∨ Irrevocable (MarksRestored o r target) r) f
  cleared : o.blind = true ∨ Cleared o target f

theorem Encodes.recalls {data : Bytes} (henc : Encodes r' data) (hwf : r'.WF)
    (hid : r'.quarantineId = .str id) (huuid : isUuid id = true)
    (hsame : (Json.obj r'.toDict).sortKeys = (Json.obj r.toDict).sortKeys) :
    Recalls m id r data := by
  have hstored : Stored id r' data := ⟨hwf, henc.1, huuid, hid, henc.2⟩
  exact ⟨r'.canon, hstored.decode m.str, r'.sortKeys_canon.trans hsame⟩

/-- `previous.to_dict() == record.to_dict()` of records that JSON can hold. -/
theorem sameDict_eq (hwf : r.WF) (hwf' : r'.WF) (hv : validateRecord r = .ok ())
    (hv' : validateRecord r' = .ok ()) (h : sameDict r r' = true) :
    (Json.obj r.toDict).sortKeys = (Json.obj r'.toDict).sortKeys := by
  have hdumps : ∀ {r : QuarantineRecord F}, validateRecord r = .ok () →
      dumpsSorted .compact true (.obj r.toDict) =
        some ((Json.obj r.toDict).sortKeys.print .compact 0) := by
    intro r hv
    have henc := (validateRecord_ok_iff.1 hv).2.2.2.2.2.2.2.2
    have hsorted := (encodable_sortKeys true _).2 (encodable_mono _ henc)
    simp only [dumpsSorted, dumps, hsorted, if_true]
  have heq : (Json.obj r.toDict).sortKeys.print .compact 0 =
      (Json.obj r'.toDict).sortKeys.print .compact 0 := by
    simpa [sameDict] using h
  have htext := hdumps hv
  rw [heq] at htext
  exact dumpsSorted_injective hwf hwf' htext (hdumps hv')

theorem sameDict_self (r : QuarantineRecord F) : sameDict r r = true := by
  simp [sameDict]

/-- The target is removed if it is still the call's. -/
theorem wp_discardTarget {n : Node} {W : Bytes → Prop} {ℓ : RestoreLocals F}
    {Q : Faults → Except Exc (Option PyStr) → Files Path → Prop}
    (h : Filling o m id target f₀ n W f) (ho : o.Respects m f₀) (ht : ℓ.target = some target)
    (hi : ℓ.identity = some (n.device, f₀.used))
    (hok : ∀ x f', Aftermath o m id target f₀ W f' → Cleared o target f' → Q .never (.ok x) f') :
    wp (machine uuid allowed) (fun _ => True) (discardTarget m ℓ) .never Q f := by
  unfold discardTarget
  rw [ht, hi]
  refine wp_orElse (wp_bind (wp_bind (wp_lexists trivial ?_ (fun hb => nomatch hb))))
  rcases h.target with hname | ⟨hd, hname⟩
  · rw [hname]
    refine wp_bind (wp_lstat hname trivial ?_ (fun hb => nomatch hb))
    refine wp_bind (wp_check trivial ?_ (fun hne => absurd ⟨h.made.device, rfl⟩ hne))
    intro _
    refine wp_bind (wp_unlink hname ?_ trivial ?_ (fun hb => nomatch hb))
    · rw [h.made.kind, h.regular]
      simp
    · intro f' h'
      have hname' : ∀ q, q ≠ target → f'.names q = f.names q := fun q hq => by
        rw [h'.names, Function.update_of_ne hq]
      refine ⟨trivial, trivial, trivial, hok none f' ⟨?_, ?_, h.ne, h.free, ?_, ?_, ?_⟩ (.inl ?_)⟩
      · exact lt_of_lt_of_le h.used h'.keeps.used
      · exact h'.wf (update_wf h.wf (by simp))
      · intro q hq hq' hd
        rw [hname' q hq]
        exact h.names q hq hq' hd
      · rw [hname' _ h.ne.symm]
        refine h.record.imp_right ?_
        rintro ⟨i, hi, hlt, hk, hw⟩
        have hsame := h'.keeps.nodes i (h.wf _ _ hi)
        exact ⟨i, hi, hlt, hsame.kind.trans hk, by rw [hsame.bytes]; exact hw⟩
      · intro i hi hp
        exact (h.nodes i hi hp).trans (h'.keeps.nodes i (lt_trans hi h.used))
      · rw [h'.names, Function.update_self]
  · have hcleared : Cleared o target f := .inr ⟨hd, hname⟩
    cases hn : f.names target with
    | none => exact ⟨trivial, trivial, hok none f h.toAftermath hcleared⟩
    | some i =>
        refine wp_bind (wp_lstat hn trivial ?_ (fun hb => nomatch hb))
        refine wp_bind (wp_check trivial (fun hsame => ?_) (fun _ => ?_))
        · -- the file there is not the one that was created
          have hi' : i = f₀.used := hsame.2
          have := hname i hn
          have := ho.old
          omega
        · exact ⟨trivial, hok _ f h.toAftermath hcleared⟩

/-- The record of before is written again, where it has been replaced. -/
theorem wp_rewritePrevious {ℓ : RestoreLocals F} {q : Json F} {j : Nat}
    {Q : Faults → Except Exc (Option PyStr) → Files Path → Prop} (hwf : f₀.WF)
    (hl : Loaded m f₀ q id j r) (ho : o.Respects m f₀)
    (hsame : SameItem r ℓ.record) (h : Aftermath o m id target f₀
      (fun data => Encodes ℓ.record data ∧ MarksRestored o r target ℓ.record) f)
    (hcleared : o.blind = true ∨ Cleared o target f)
    (hok : ∀ b x f', Undone o m id target f₀ r f' → Q b (.ok x) f') :
    wp (machine uuid allowed) (fun _ => True) (rewritePrevious m r ℓ) .never Q f := by
  have hspec := decodeRecord_ok hl.decoded
  have hrwf := hspec.1
  have hid := hspec.2.2
  have huuid := isUuid_of_validate hl.id_ok
  unfold rewritePrevious
  by_cases hdict : sameDict r ℓ.record = true
  · rw [if_pos hdict]
    refine ⟨trivial, hok _ none f ⟨h.mono ?_, hcleared⟩⟩
    rintro data ⟨henc, -⟩
    exact .inl (henc.recalls (hsame.wf hrwf) (hsame.quarantineId.trans hid) huuid
      (sameDict_eq hrwf (hsame.wf hrwf) hspec.2.1 henc.1 hdict).symm)
  · rw [if_neg hdict]
    have hdst : Writable f (m.metadataPath id) := by
      intro i hi
      refine ⟨h.wf _ _ hi, ?_⟩
      rcases h.record with hrec | ⟨i', hi', -, hk, -⟩
      · rw [hrec, hl.named] at hi
        cases hi
        exact (h.nodes j (hwf _ _ hl.named) (ho.records id j hl.named)).kind.trans hl.regular
      · rw [hi'] at hi
        cases hi
        exact hk
    have hstay : ∀ {f'}, Unchanged f f' → Unwritable r → Undone o m id target f₀ r f' := by
      intro f' hu hun
      refine ⟨⟨lt_of_lt_of_le h.used hu.keeps.used, hu.wf h.wf, h.ne, h.free, ?_, ?_, ?_⟩, ?_⟩
      · rw [hu.names]
        exact h.names
      · rw [hu.names]
        refine h.record.imp_right ?_
        rintro ⟨i, hi, hlt, hk, henc, hmarks⟩
        have hs := hu.keeps.nodes i (h.wf _ _ hi)
        exact ⟨i, hi, hlt, hs.kind.trans hk, .inr ⟨hun, _, _, hmarks, henc⟩⟩
      · intro i hi hp
        exact (h.nodes i hi hp).trans (hu.keeps.nodes i (lt_trans hi h.used))
      · unfold Cleared
        rw [hu.names]
        exact hcleared
    refine wp_orElse (wp_bind (wp_writeMetadataAtomic (r := r) hid huuid hdst (fun _ _ _ _ => trivial)
      (fun _ _ => trivial) (fun _ _ _ _ => trivial) ?_ ?_))
    · intro b' data f' hb' henc h'
      obtain rfl := hb'.of_never
      have hnode := h'.keeps.nodes
      refine ⟨trivial, hok _ none f' ⟨⟨?_, h'.wf h.wf, h.ne, h.free, ?_, .inr ⟨f.used, ?_, h.used,
        h'.kind, ?_⟩, ?_⟩, ?_⟩⟩
      · rw [h'.used]
        exact Nat.lt_succ_of_lt h.used
      · intro q hq hq' hd
        rw [h'.names, Function.update_of_ne hq']
        exact h.names q hq hq' hd
      · rw [h'.names, Function.update_self]
      · rw [h'.bytes]
        exact .inl (henc.recalls hrwf hid huuid rfl)
      · intro i hi hp
        exact (h.nodes i hi hp).trans (h'.keeps.nodes i (lt_trans hi h.used))
      · unfold Cleared
        rw [h'.names, Function.update_of_ne h.ne]
        exact hcleared
    · rintro b' e f' (hb | hun) hwhy
      · exact nomatch hb
      · have hu : Unchanged f f' := hwhy.resolve_right fun ⟨data, henc, _⟩ => hun data henc
        exact ⟨trivial, hok _ _ f' (hstay hu hun)⟩

/-- The handler: it raises, with the call undone. -/
theorem wp_recoverRestore {ℓ : RestoreLocals F} {q : Json F} {j : Nat} {e : Exc}
    {destination : Option PyStr} {Q : Faults → Except Exc (QuarantineRecord F) → Files Path → Prop}
    (hwf : f₀.WF) (hl : Loaded m f₀ q id j r) (ho : o.Respects m f₀)
    (h : Faulted o m destination id f₀ r ℓ f)
    (hearly : Intrusion o f₀ f → ∀ b e, Q b (.error e) f)
    (hraise : ∀ target f', restoreTarget m destination r.originalPath = some target →
      Verified o m id r f₀ → Undone o m id target f₀ r f' → ∀ b e, Q b (.error e) f') :
    wp (machine uuid allowed) (fun _ => True) (recoverRestore m r e ℓ) .never Q f := by
  have hspec := decodeRecord_ok hl.decoded
  have hnothing : ℓ.identity = none → discardTarget m ℓ = (.done none : Prog F (Option PyStr)) := by
    intro hi
    unfold discardTarget
    rw [hi]
    cases ℓ.target <;> rfl
  have hsame : ℓ.record = r → rewritePrevious m r ℓ = .done none := by
    intro hr
    unfold rewritePrevious
    rw [hr, if_pos (sameDict_self r)]
  refine wp_bind ?_
  rcases h with ⟨hf, hi, hr⟩ | ⟨hitem, hverified, target, n, htarget, hf, ht, hi | ⟨hblind, hi, hr⟩⟩
  · rw [hnothing hi]
    refine ⟨trivial, wp_bind ?_⟩
    rw [hsame hr]
    refine ⟨trivial, ?_⟩
    cases e <;> exact ⟨trivial, hearly hf _ _⟩
  · refine wp_discardTarget hf ho ht hi ?_
    intro x f₁ h₁ hcleared
    refine wp_bind (wp_rewritePrevious hwf hl ho hitem h₁ (.inr hcleared) ?_)
    intro b y f₂ h₂
    -- the exception that is raised after the two parts of the rollback
    cases x <;> cases y <;> cases e <;> exact ⟨trivial, hraise target f₂ htarget hverified h₂ _ _⟩
  · rw [hnothing hi]
    refine ⟨trivial, wp_bind ?_⟩
    rw [hsame hr]
    have hback : Undone o m id target f₀ r f := by
      refine ⟨hf.toAftermath.mono ?_, .inl hblind⟩
      rintro data ⟨henc, -⟩
      rw [hr] at henc
      exact .inl (henc.recalls hspec.1 hspec.2.2 (isUuid_of_validate hl.id_ok) rfl)
    refine ⟨trivial, ?_⟩
    cases e <;> exact ⟨trivial, hraise target f htarget hverified hback _ _⟩

end Rollback

/-! ## The whole call -/

section Call

variable [FloatNum F] {o : Storm} {uuid : PyStr} {m : Manager} {f₀ : Files Path} {t : Weather}
  {q : Json F} {destination : Option PyStr}

/-- How `restore_file` ends. -/
def RestorePost (o : Storm) (m : Manager) (q : Json F) (destination : Option PyStr)
    (f₀ : Files Path) : Except Exc (QuarantineRecord F) → Files Path → Prop
  | .ok r', f => ∃ id j r target n, Loaded m f₀ q id j r ∧ hasStatus r (py "deleted") = false ∧
      restoreTarget m destination r.originalPath = some target ∧
      Restored o m id target f₀ n r r' f
  | .error _, f => Intrusion o f₀ f ∨ ∃ id j r target, Loaded m f₀ q id j r ∧
      hasStatus r (py "deleted") = false ∧ restoreTarget m destination r.originalPath = some target ∧
      Verified o m id r f₀ ∧ Undone o m id target f₀ r f

/-- **Restoring in a storm.** -/
theorem storm_restoreFile (hwf : f₀.WF) (ho : o.Respects m f₀) (h : Intrusion o f₀ t.files) :
    survives (stormy o uuid) (machine uuid fun _ _ => True) Weather.files
      (restoreFile m q destination) (fun x t' => RestorePost o m q destination f₀ x t'.files)
      (RestorePost o m q destination f₀) t := by
  have hst := stable_intrusion o f₀
  refine survives_bind (storm_loadMetadata ho h ?_ (fun e t' h' => .inl h'))
  intro r id j t₁ hl h₁
  refine survives_bind (storm_check ?_ (fun _ => .inl h₁))
  intro hlive
  refine survives_bind (storm_lift ?_)
  rw [(decodeRecord_ok hl.decoded).2.2, validateQuarantineId_of_isUuid (isUuid_of_validate hl.id_ok)]
  refine survives_bind (survives_mono ?_
    (storm_plain (plain_lexists (m.payloadPath id)) (returns_true _) hst h₁))
  rintro (e | found) t₂ ⟨h₂, -⟩
  · exact .inl h₂
  refine survives_bind (storm_check ?_ (fun _ => .inl h₂))
  intro _
  refine survives_orElse (survives_mono ?_
    (storm_restoreBody hwf ho hl h₂))
  rintro (⟨e, ℓ⟩ | r') t₃ h₃
  · exact wp_recoverRestore hwf hl ho h₃ (fun hf _ _ => .inl hf)
      (fun target f' htarget hverified hf' _ _ =>
        .inr ⟨id, j, r, target, hl, hlive, htarget, hverified, hf'⟩)
  · obtain ⟨target, n, htarget, h₃⟩ := h₃
    exact ⟨id, j, r, target, n, hl, hlive, htarget, h₃⟩

/-- Every run in a storm ends so. -/
theorem restoreFile_post (hwf : f₀.WF) (ho : o.Respects m f₀) {x : Except Exc (QuarantineRecord F)}
    {f : Files Path} (hrun : Storms (stormy o uuid) (machine uuid fun _ _ => True) Weather.files
      (restoreFile m q destination) ⟨f₀, false⟩ x f) : RestorePost o m q destination f₀ x f := by
  rcases survives_storms (storm_restoreFile hwf ho (.refl o f₀)) hrun with ⟨t', rfl, h⟩ | h
  · exact h
  · exact h

end Call

end Elyra.Quarantine
