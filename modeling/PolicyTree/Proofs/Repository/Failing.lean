import PolicyTree.Proofs.Repository.Drafts
import PolicyTree.Proofs.Tree.Changes

namespace PolicyTree

namespace Session

variable {session : Session} {saved later : Saved}

-- The session with the copy that it writes to.
def begun (session : Session) (saved : Saved) : Session :=
  { session with working := some (SessionM.copy saved session) }

theorem working_of_not_isPending (h : ¬session.isPending) : session.working = none := by
  simpa [isPending] using h

theorem begun_of_isPending (h : session.isPending) : session.begun saved = session := by
  obtain ⟨copy, hc⟩ := Option.isSome_iff_exists.1 h
  rw [begun, SessionM.copy, hc, Option.getD_some, ← hc]

theorem begun_of_not_isPending (h : ¬session.isPending) : session.begun saved =
    { session with working := some ⟨saved.store, saved.revision⟩ } := by
  rw [begun, SessionM.copy, working_of_not_isPending h, Option.getD_none]

theorem view_begun_later (h : ¬session.isPending) (types : later.types = saved.types) :
    (session.begun saved).view later = session.view saved := by
  simp [begun_of_not_isPending h, view, store, working_of_not_isPending h, types]

-- To take a copy is no change.
theorem view_begun : (session.begun saved).view saved = session.view saved := by
  by_cases h : session.isPending
  case pos => rw [begun_of_isPending h]
  case neg => exact view_begun_later h rfl

theorem commit_begun (h : ¬session.isPending) : (session.begun saved).commit later =
    if later.revision = saved.revision then
      .ok (later.store.changes saved.store later.types,
        { later with store := saved.store, revision := later.revision + 1 })
    else .error (.outdated saved.revision later.revision) := by
  rw [begun_of_not_isPending h, commit]
  exact ite_not ..

end Session

namespace Repository

variable {s s' s'' later : Repository} {n : Nat} {w : Write} {e : TreeError}

-- One step of a repository in which a session has no part.
inductive Aside (n : Nat) (s : Repository) : Repository → Prop
  | login (faults : Faults) (other : s.sessions.next ≠ n) : Aside n s ((login faults).run s).2
  | work {α ε : Type} {m : Nat} (work : SessionM ε α) (other : m ≠ n) :
    Aside n s (s.after (inSession m work))
  | refresh {m : Nat} (keepChanges : Bool) (other : m ≠ n) :
    Aside n s (s.after (refresh m keepChanges))
  | save {m : Nat} (other : m ≠ n) : Aside n s (s.after (save m))
  | elsewhere {s' : Repository} (saved : s'.saved = s.saved) (sessions : s'.sessions = s.sessions) :
    Aside n s s'

-- What such steps leave alone. The saved tree may be another one only if the revision is.
structure Spares (n : Nat) (s s' : Repository) : Prop where
  session : s'.session n = s.session n
  types   : s'.saved.types = s.saved.types
  later   : s.saved.revision ≤ s'.saved.revision
  same    : s'.saved.revision = s.saved.revision → s'.saved = s.saved

namespace Spares

theorem of_saved (session : s'.session n = s.session n) (saved : s'.saved = s.saved) :
    Spares n s s' :=
  ⟨session, by rw [saved], by rw [saved], fun _ => saved⟩

theorem refl : Spares n s s := .of_saved rfl rfl

theorem trans (h : Spares n s s') (h' : Spares n s' s'') : Spares n s s'' where
  session := h'.session.trans h.session
  types   := h'.types.trans h.types
  later   := h.later.trans h'.later
  same    := fun he => by
    have := h.later
    have := h'.later
    exact (h'.same (by omega)).trans (h.same (by omega))

theorem committed {m : Nat} {events : List Event} {saved : Saved} (other : m ≠ n)
    (hc : (s.session m).commit s.saved = .ok (events, saved)) :
    Spares n s (s.committed m saved) := by
  have session : (s.committed m saved).session n = s.session n := by
    simp [Repository.session, Repository.committed, Table.get?_set, other.symm]
  rcases Session.commit_cases hc with ⟨_, _, rfl⟩ | ⟨_, _, _, _, rfl⟩
  case inl => exact .of_saved session rfl
  case inr => exact ⟨session, rfl, Nat.le_succ _, fun he => absurd he (Nat.succ_ne_self _)⟩

theorem of_calm (hc : Calm s s') : Spares n s s' :=
  .of_saved (by rw [Repository.session, Repository.session, hc.sessions]) hc.saved

theorem of_aside (h : Aside n s s') : Spares n s s' := by
  cases h
  case login faults other =>
    refine .of_saved ?_ rfl
    simp [Repository.session, run_login, Table.get?_add, other.symm]
  case work m work other =>
    rw [after, run_inSession]
    refine .of_saved ?_ rfl
    simp [Repository.session, Table.get?_set, other.symm]
  case refresh m keepChanges other =>
    rw [after, run_refresh]
    split
    case h_1 => exact .refl
    case h_2 =>
      refine .of_saved ?_ rfl
      simp [Repository.session, Table.get?_modify, other.symm]
  case save m other =>
    rcases after_save_cases (s := s) (n := m) with same | ⟨_, _, hc, told⟩
    case inl =>
      rw [same]
      exact .refl
    case inr => exact told ▸ (committed other hc).trans (of_calm (keepsCalm_dispatch _ _))
  case elsewhere saved sessions =>
    exact .of_saved (by rw [Repository.session, Repository.session, sessions]) saved

theorem of_run (h : Relation.ReflTransGen (Aside n) s s') : Spares n s s' := by
  induction h
  case refl        => exact .refl
  case tail _ hs h => exact h.trans (.of_aside hs)

end Spares

theorem set_session (here : s.sessions.contains n) :
    s.sessions.set n (s.session n) = s.sessions := by
  obtain ⟨session, hn⟩ := Option.isSome_iff_exists.1 (Table.contains_iff.symm.trans here)
  rw [Repository.session, hn]
  exact Table.set_get? hn

-- What a write that fails does to a session is to let it begin.
theorem after_failed_write (faults : (s.session n).faults = .empty)
    (failed : ((inSession n w.run).run.run s).1 = .error e) :
    ∃ nextId, s.after (inSession n w.run) = { s with
      sessions := s.sessions.set n ((s.session n).begun s.saved)
      nextId } := by
  have ran := SessionM.Ensures.session_run s.saved ⟨s.session n, s.nextId⟩ w _ rfl
  rw [run_inSession] at failed
  rw [after, run_inSession]
  rcases hr : w.run.run' s.saved ⟨s.session n, s.nextId⟩ with ⟨_ | _, desk⟩ <;>
    rw [hr] at ran failed
  case ok    => cases failed
  case error =>
    rcases ran with ⟨_, misbehaves⟩ | begun
    · exact absurd faults misbehaves
    · exact ⟨desk.nextId, by rw [begun]; rfl⟩

-- The session that was to write stands as if it had begun.
theorem session_after_failed_write (here : s.sessions.contains n)
    (faults : (s.session n).faults = .empty)
    (failed : ((inSession n w.run).run.run s).1 = .error e) :
    (s.after (inSession n w.run)).session n = (s.session n).begun s.saved ∧
      (s.after (inSession n w.run)).saved = s.saved := by
  obtain ⟨former, hn⟩ := Option.isSome_iff_exists.1 (Table.contains_iff.symm.trans here)
  obtain ⟨_, left⟩ := after_failed_write faults failed
  rw [left]
  exact ⟨by simp [Repository.session, Table.get?_set, hn], rfl⟩

-- A write that fails changes nothing of what the session reads. If the session has changes, all is
-- as before but for an id that may be used up. If it has none, it goes on to read what it read
-- then, whatever the others do. By the time it saves, either nobody else has saved and there is
-- nothing to tell, or it has come too late.
theorem failed_write_keeps_changes (here : s.sessions.contains n)
    (faults : (s.session n).faults = .empty)
    (failed : ((inSession n w.run).run.run s).1 = .error e) :
    let s' := s.after (inSession n w.run)
    s'.sessionView n = s.sessionView n ∧
    ((s.session n).isPending → s' = { s with nextId := s'.nextId }) ∧
    (¬(s.session n).isPending → ∀ later, Relation.ReflTransGen (Aside n) s' later →
      later.sessionView n = s.sessionView n ∧
      if later.saved.revision = s.saved.revision then
        later.saved = s.saved ∧ (save n).run.run later =
          (.ok (), later.committed n { s.saved with revision := s.saved.revision + 1 })
      else (save n).run.run later =
        (.error (.outdated s.saved.revision later.saved.revision), later)) := by
  intro s'
  obtain ⟨session, saved⟩ := session_after_failed_write here faults failed
  refine ⟨?_, fun pending => ?_, fun idle later run => ?_⟩
  · rw [sessionView, session, saved, Session.view_begun, sessionView]
  · obtain ⟨nextId, left⟩ := after_failed_write faults failed
    rw [Session.begun_of_isPending pending, set_session here] at left
    have all : s' = { s with nextId } := left
    rw [all]
  · have spared := Spares.of_run run
    have begun : later.session n = (s.session n).begun s.saved := spared.session.trans session
    have noFault : (later.session n).faults = .empty := by rw [begun]; exact faults
    have types : later.saved.types = s.saved.types := spared.types.trans (congrArg (·.types) saved)
    have view : later.sessionView n = s.sessionView n := by
      rw [sessionView, begun, Session.view_begun_later idle types, sessionView]
    refine ⟨view, ?_⟩
    rw [run_save, noFault, Faults.check_empty, begun, Session.commit_begun idle]
    split
    case isFalse => rfl
    case isTrue unsaved =>
      have unchanged : later.saved = s.saved := by
        rw [← saved]
        exact spared.same (by rw [unsaved, saved])
      refine ⟨unchanged, ?_⟩
      dsimp only
      rw [unchanged, Store.changes_self, run_dispatch_nil]

-- One session with a change and one without.
def oneBegun : Repository :=
  initial .initial |>.after (ε := TreeError) (login .empty)
    |>.after (ε := TreeError) (login .empty)
    |>.after (inSession 0 (Write.addNode ⟨⟨0⟩, "/"⟩ "a" "nt:unstructured").run)

def removeRoot : Write := .removeNode ⟨⟨0⟩, "/"⟩

-- Both try what can not be done. The first session saves all the same, and then the second can not.
theorem root_removal_keeps_changes :
    let first := oneBegun.after (inSession 0 removeRoot.run)
    let second := oneBegun.after (inSession 1 removeRoot.run)
    (∀ n ∈ [0, 1], oneBegun.sessions.contains n ∧ (oneBegun.session n).faults = .empty ∧
      ((inSession n removeRoot.run).run.run oneBegun).1 = .error .rootRemoval) ∧
    (oneBegun.session 0).isPending ∧ ¬(oneBegun.session 1).isPending ∧
    first = { oneBegun with nextId := first.nextId } ∧
    Relation.ReflTransGen (Aside 1) second (second.after (save 0)) ∧
    (second.after (save 0)).sessionView 1 = oneBegun.sessionView 1 ∧
    ((save 1).run.run (second.after (save 0))).1 = .error (.outdated 0 1) := by
  intro first second
  have given : ∀ n ∈ [0, 1], oneBegun.sessions.contains n ∧ (oneBegun.session n).faults = .empty ∧
      ((inSession n removeRoot.run).run.run oneBegun).1 = .error .rootRemoval := by decide +kernel
  have pending : (oneBegun.session 0).isPending := by decide +kernel
  have idle : ¬(oneBegun.session 1).isPending := by decide +kernel
  have saves : Relation.ReflTransGen (Aside 1) second (second.after (save 0)) :=
    .single (.save (by decide))
  have revisions : (second.after (save 0)).saved.revision = 1 ∧ oneBegun.saved.revision = 0 := by
    decide +kernel
  have ⟨here, faults, failed⟩ := given 0 (by decide)
  have ⟨here', faults', failed'⟩ := given 1 (by decide)
  have ⟨_, kept, _⟩ := failed_write_keeps_changes here faults failed
  have ⟨_, _, late⟩ := failed_write_keeps_changes here' faults' failed'
  have ⟨reads, save⟩ := late idle _ saves
  rw [revisions.1, revisions.2] at save
  exact ⟨given, pending, idle, kept pending, saves, reads, congrArg (·.1) save⟩

-- Had the second session not tried, it would see what the first has saved, and could save itself.
theorem failed_write_counts_as_change :
    let tried := oneBegun.after (inSession 1 removeRoot.run)
    let notTried := oneBegun
    ((inSession 1 removeRoot.run).run.run oneBegun).1 = .error .rootRemoval ∧
    (tried.session 1).isPending ∧ ¬(notTried.session 1).isPending ∧
    ((tried.after (save 0)).sessionView 1).resolve "/a" = .ok none ∧
    ((notTried.after (save 0)).sessionView 1).resolve "/a" = .ok (some ⟨⟨1⟩, "/a"⟩) ∧
    ((save 1).run.run (tried.after (save 0))).1 = .error (.outdated 0 1) ∧
    ((save 1).run.run (notTried.after (save 0))).1 = .ok () := by
  decide +kernel

end Repository

end PolicyTree
