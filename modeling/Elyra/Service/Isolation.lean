import Elyra.Service.Handler
import Elyra.Quarantine.Reading

set_option autoImplicit false

/-! # Unprivileged peers

Runs of request lines from any peers, each processed as a whole. What the sensitive actions change,
the enforcement mode and the files, is the same as in the run without the lines of the unprivileged
peers (`unprivileged_lines_deleted`): such a line changes none of it, whatever its bytes, and what
the line of a privileged peer changes does not depend on the rest of the daemon, which the others can
reach. -/

namespace Elyra.Service

open Elyra.Python Elyra.Posix Elyra.Posix.Program Elyra.Quarantine Elyra.Fanotify

/-! ## Deleting inputs -/

section Purge

variable {I S V : Type}

/-- If an input that is not kept leaves the view alone, and a kept one treats states of one view
    alike, then the view after a run is that of the run of the kept inputs. -/
theorem view_foldl_filter (step : S → I → S) (view : S → V) (keep : I → Bool)
    (hdrop : ∀ s i, keep i = false → view (step s i) = view s)
    (hkeep : ∀ s s' i, keep i = true → view s = view s' → view (step s i) = view (step s' i))
    (inputs : List I) (s s' : S) (h : view s = view s') :
    view (inputs.foldl step s) = view ((inputs.filter keep).foldl step s') := by
  induction inputs generalizing s s' with
  | nil => exact h
  | cons i inputs ih =>
      cases hi : keep i with
      | true =>
          rw [List.filter_cons_of_pos hi]
          exact ih _ _ (hkeep s s' i hi h)
      | false =>
          rw [List.filter_cons_of_neg (by simp [hi])]
          exact ih _ _ ((hdrop s i hi).trans h)

end Purge

variable {R F : Type}

/-! ## Reading -/

section Listing

variable [FloatNum F]

theorem only_loadAll (m : Manager) (stems : List PyStr) :
    Only Reading (loadAll (F := F) m stems) := by
  induction stems with
  | nil => trivial
  | cons stem stems ih =>
      unfold loadAll
      refine .bind (.orElse (.bind ((plain_loadMetadata m _).only) fun r => trivial) fun e => ?_)
        fun loaded => ?_
      · split <;> trivial
      · refine .bind ih fun listed => ?_
        cases loaded <;> trivial

theorem only_listQuarantine (w : World R F) (stems : List PyStr) :
    Only Reading (listQuarantine w stems) := by
  refine .bind (only_loadAll _ _) fun listed => ?_
  exact .bind ((plain_check _ _).only) fun _ => (plain_lift _).only

end Listing

/-! ## Requests -/

/-- A request line, its peer, and what it meets. Reading changes no file. -/
structure Request (R F : Type) where
  peer : Requester
  line : Bytes
  world : World R F
  reading : ∀ n c f, Reading c → (world.kernel n c f).2 = f

/-- What the sensitive actions change. -/
def Shared.guarded (s : Shared R) : Mode × Files Path := (s.mode, s.files)

section Requests

variable [FloatNum F]

/-- `_process_line` on the daemon's handler. -/
def processed (parse : Loads F) (db : Accounts) (s : Shared R) (q : Request R F) : Shared R :=
  (processLine parse db (handleIpcAction db q.world) q.peer q.line s).2

/-- The state after all the lines. -/
def afterLines (parse : Loads F) (db : Accounts) (lines : List (Request R F)) (s : Shared R) :
    Shared R :=
  lines.foldl (processed parse db) s

/-- The handler changes nothing guarded unless the action is sensitive. -/
theorem handleIpcAction_guarded (db : Accounts) (q : Request R F) {a : IpcAction}
    (ha : a.level ≠ .sensitive) (params : Mapping F) (s : Shared R) :
    (handleIpcAction db q.world a params q.peer s).2.guarded = s.guarded := by
  cases a with
  | getStatus | listEvents | listRuntimeStates | getPolicy | scanFile => rfl
  | listQuarantine =>
      have hfiles := execute_only q.reading (only_listQuarantine q.world (q.world.glob s.files)) 0
        s.files
      simp only [handleIpcAction]
      split
      · simp [Shared.guarded, hfiles]
      · simp [Shared.guarded, hfiles]
  | restoreFile | deletePermanently | updateEnforcementPolicy => exact absurd rfl ha

/-- What the handler changes of the guarded state does not depend on the rest. -/
theorem handleIpcAction_congr (db : Accounts) (w : World R F) (a : IpcAction) (params : Mapping F)
    (r : Requester) {s s' : Shared R} (h : s.guarded = s'.guarded) :
    (handleIpcAction db w a params r s).2.guarded =
      (handleIpcAction db w a params r s').2.guarded := by
  obtain ⟨mode, files, rest⟩ := s
  obtain ⟨mode', files', rest'⟩ := s'
  simp only [Shared.guarded, Prod.mk.injEq] at h
  obtain ⟨rfl, rfl⟩ := h
  cases a with
  | getStatus | listEvents | listRuntimeStates | getPolicy | scanFile => rfl
  | listQuarantine =>
      simp only [handleIpcAction]
      split <;> rfl
  | restoreFile => rfl
  | deletePermanently => rfl
  | updateEnforcementPolicy =>
      simp only [handleIpcAction]
      cases setMode (textParam params (py "mode")) with
      | none => rfl
      | some m =>
          simp only
          split <;> split <;> rfl

/-- A line of an unprivileged peer changes nothing guarded. -/
theorem processed_unprivileged (parse : Loads F) (db : Accounts) (s : Shared R) (q : Request R F)
    (hq : q.peer.privileged db = false) : (processed parse db s q).guarded = s.guarded := by
  unfold processed processLine
  cases decodeRequestLine parse q.line with
  | error e => cases e <;> rfl
  | ok request =>
      simp only [processRequest]
      cases hauth : authorize db q.peer request.action with
      | error e => cases e <;> rfl
      | ok u =>
          have hlevel : request.action.level ≠ .sensitive := by
            have := (authorize_ok_iff db q.peer request.action).1 hauth
            simpa [hq] using this
          have hguarded := handleIpcAction_guarded db q hlevel request.params s
          cases hh : handleIpcAction db q.world request.action request.params q.peer s with
          | mk result s' =>
              rw [hh] at hguarded
              cases result <;> exact hguarded

/-- A line treats states of one guarded part alike. -/
theorem processed_congr (parse : Loads F) (db : Accounts) (s s' : Shared R) (q : Request R F)
    (h : s.guarded = s'.guarded) :
    (processed parse db s q).guarded = (processed parse db s' q).guarded := by
  unfold processed processLine
  cases decodeRequestLine parse q.line with
  | error e => cases e <;> exact h
  | ok request =>
      simp only [processRequest]
      cases authorize db q.peer request.action with
      | error e => cases e <;> exact h
      | ok u =>
          have hguarded := handleIpcAction_congr db q.world request.action request.params q.peer h
          cases hh : handleIpcAction db q.world request.action request.params q.peer s with
          | mk result t =>
              cases hh' : handleIpcAction db q.world request.action request.params q.peer s' with
              | mk result' t' =>
                  rw [hh, hh'] at hguarded
                  cases result <;> cases result' <;> exact hguarded

/-- **Unprivileged peers have no influence.** After any run of request lines, the enforcement mode,
    the quarantine store and the restored files are those of the run without the lines of the peers
    that are neither root nor in `elyra-admin`. -/
theorem unprivileged_lines_deleted (parse : Loads F) (db : Accounts) (lines : List (Request R F))
    (s : Shared R) :
    (afterLines parse db lines s).guarded =
      (afterLines parse db (lines.filter fun q => q.peer.privileged db) s).guarded :=
  view_foldl_filter (processed parse db) Shared.guarded (fun q => q.peer.privileged db)
    (fun s q hq => processed_unprivileged parse db s q hq)
    (fun s s' q _ h => processed_congr parse db s s' q h) lines s s rfl

end Requests

end Elyra.Service
