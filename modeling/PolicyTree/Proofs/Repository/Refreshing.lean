import PolicyTree.Proofs.Repository.Failing

namespace PolicyTree

namespace Session

variable {session session' : Session} {saved : Saved}

-- A session writes to a copy with the base that it had before, whatever stands in it by now.
structure Upholds (saved : Saved) (session session' : Session) : Prop where
  base   : (SessionM.copy saved session').base = (SessionM.copy saved session).base
  faults : session'.faults = session.faults

namespace Upholds

theorem refl : Upholds saved session session := ⟨rfl, rfl⟩

theorem trans {session'' : Session} (h : Upholds saved session session')
    (h' : Upholds saved session' session'') : Upholds saved session session'' :=
  ⟨h'.base.trans h.base, h'.faults.trans h.faults⟩

theorem turns {desk desk' : Desk} (h : desk.Turns saved desk') :
    Upholds saved desk.session desk'.session := by
  induction h
  case refl => exact .refl
  case tail _ turn h =>
    refine h.trans ?_
    cases turn
    case take => exact .refl
    case copy => exact ⟨rfl, rfl⟩
    case add  => exact ⟨rfl, rfl⟩
    case edit => exact ⟨rfl, rfl⟩

end Upholds

-- A session can save unless the copy that it would write to was taken from another tree.
theorem commit_map : (fun _ => ()) <$> session.commit saved =
    if (SessionM.copy saved session).base = saved.revision then .ok ()
    else .error (.outdated (SessionM.copy saved session).base saved.revision) := by
  unfold commit SessionM.copy
  cases session.working
  case none   => exact (if_pos rfl).symm
  case some c =>
    by_cases hb : saved.revision = c.base
    case pos => simp [hb]
    case neg => simp [hb, Ne.symm hb]

end Session

namespace Repository

variable {types : NodeTypes} {s s' later : Repository} {drafts : Nat → Option Draft} {n : Nat}

-- What may happen while a session is at work and nobody else saves.
inductive Undisturbed (n : Nat) (s : Repository) : Repository → Prop
  | own {α ε : Type} {work : SessionM ε α} (h : work.Composed) :
    Undisturbed n s (s.after (inSession n work))
  | others {s' : Repository} (h : Aside n s s') (unsaved : s'.saved = s.saved) : Undisturbed n s s'

theorem Undisturbed.upholds (h : Undisturbed n s s') :
    s'.saved = s.saved ∧ Session.Upholds s.saved (s.session n) (s'.session n) := by
  cases h
  case others h unsaved =>
    refine ⟨unsaved, ?_⟩
    rw [(Spares.of_aside h).session]
    exact .refl
  case own work h =>
    have turns : Desk.Turns s.saved ⟨s.session n, s.nextId⟩ _ := h.turns
    have upholds := Session.Upholds.turns turns
    rw [after, run_inSession]
    refine ⟨rfl, ?_⟩
    cases here : s.sessions.get? n
    case none   => simpa [session, Table.get?_set, here] using .refl
    case some _ => simpa [session, Table.get?_set, here] using upholds

theorem upholds_of_run (h : Relation.ReflTransGen (Undisturbed n) s later) :
    later.saved = s.saved ∧ Session.Upholds s.saved (s.session n) (later.session n) := by
  induction h
  case refl => exact ⟨rfl, .refl⟩
  case tail _ step h =>
    have ⟨same, upholds⟩ := step.upholds
    exact ⟨same.trans h.1, h.2.trans (h.1 ▸ upholds)⟩

-- The next save hangs on the copy that the session has now.
theorem save_after_run (h : Relation.ReflTransGen (Undisturbed n) s later)
    (faults : (s.session n).faults = .empty) :
    ((save n).run.run later).1 =
      if (SessionM.copy s.saved (s.session n)).base = s.saved.revision then .ok ()
      else .error (.outdated (SessionM.copy s.saved (s.session n)).base s.saved.revision) := by
  have ⟨same, upholds⟩ := upholds_of_run h
  have saves : ((save n).run.run later).1 =
      (fun _ => ()) <$> (later.session n).commit later.saved := by
    rw [run_save, upholds.faults, faults, Faults.check_empty]
    cases (later.session n).commit later.saved <;> rfl
  rw [saves, Session.commit_map, same, upholds.base]

theorem after_refresh {keepChanges : Bool} (here : s.sessions.contains n)
    (faults : (s.session n).faults = .empty) :
    ((refresh n keepChanges).run.run s).1 = .ok () ∧
      (s.after (refresh n keepChanges)).saved = s.saved ∧
      (s.after (refresh n keepChanges)).session n = (s.session n).refresh keepChanges := by
  obtain ⟨former, hn⟩ := Option.isSome_iff_exists.1 (Table.contains_iff.symm.trans here)
  rw [after, run_refresh, faults, Faults.check_empty]
  refine ⟨rfl, rfl, ?_⟩
  simp [session, Table.get?_modify, hn]

-- In every run, a session that refreshes and does not keep changes reads the saved tree, and so
-- does one that has none to keep. A session that keeps changes stays as it is: it reads them made
-- to the tree that its copy was taken from. If nobody else saves until it does, its next save goes
-- through unless it has kept changes to a tree that is not saved any more.
theorem refresh_drops_or_keeps_copy (h : Drafted types s drafts) (here : s.sessions.contains n)
    (faults : (s.session n).faults = .empty) (keepChanges : Bool) :
    let s' := s.after (refresh n keepChanges)
    let kept := if keepChanges then drafts n else none
    ((refresh n keepChanges).run.run s).1 = .ok () ∧
    match kept with
    | none => ¬(s'.session n).isPending ∧ s'.sessionView n = s.saved.store.view s.saved.types ∧
      ∀ later, Relation.ReflTransGen (Undisturbed n) s' later → ((save n).run.run later).1 = .ok ()
    | some d => s'.session n = s.session n ∧
      (∃ store, d.replay d.base.store = .ok store ∧ s'.sessionView n = store.view d.base.types) ∧
      (d.base = s.saved ∨ d.base.revision < s.saved.revision) ∧
      ∀ later, Relation.ReflTransGen (Undisturbed n) s' later → ((save n).run.run later).1 =
        if d.base.revision = s.saved.revision then .ok ()
        else .error (.outdated d.base.revision s.saved.revision) := by
  intro s' kept
  obtain ⟨done, saved, session⟩ : ((refresh n keepChanges).run.run s).1 = .ok () ∧
      s'.saved = s.saved ∧ s'.session n = (s.session n).refresh keepChanges :=
    after_refresh here faults
  have faults' : (s'.session n).faults = .empty := by
    rw [session]
    cases keepChanges <;> exact faults
  have told : Draft.Tells s.saved kept (s'.session n).working := by
    rw [session]
    cases keepChanges
    case false => exact .nothing
    case true  => exact h.keeps.session here
  have saves {later : Repository} (run : Relation.ReflTransGen (Undisturbed n) s' later) :=
    save_after_run run faults'
  have view : s'.sessionView n = ((s'.session n).store s.saved).view s.saved.types := by
    rw [sessionView, Session.view, faults', TreeView.withFaults_empty, saved]
  refine ⟨done, ?_⟩
  rw [saved] at saves
  unfold SessionM.copy at saves
  unfold Session.store at view
  cases hk : kept <;> rw [hk] at told
  case none =>
    have idle : (s'.session n).working = none := by
      cases hw : (s'.session n).working
      case none => rfl
      case some => rw [hw] at told; cases told
    rw [idle] at view saves
    exact ⟨by simp [Session.isPending, idle], view, fun later run => (saves run).trans (if_pos rfl)⟩
  case some d =>
    have keeps : keepChanges := by
      by_contra drops
      simp [kept, drops] at hk
    have same : s'.session n = s.session n := by rw [session, keeps]; rfl
    generalize (s'.session n).working = working at told view saves
    cases told with
    | @changes _ c base content types old current =>
      refine ⟨same, ⟨c.store, content, by rw [types, view]⟩, ?_, fun later run => ?_⟩
      · exact (Nat.eq_or_lt_of_le old).imp current id
      · exact base ▸ saves run

-- Two sessions write, and the first has saved.
def firstSaved : Repository :=
  initial .initial |>.after (ε := TreeError) (login .empty)
    |>.after (ε := TreeError) (login .empty)
    |>.after (Request.run 0 (.write (.addNode ⟨⟨0⟩, "/"⟩ "a" "nt:unstructured")))
    |>.after (Request.run 1 (.write (.addNode ⟨⟨0⟩, "/"⟩ "b" "nt:unstructured")))
    |>.after (Request.run 0 .save)

-- Whatever the second writes after a refresh, it can save if it has dropped its change, and can not
-- if it has kept it.
theorem second_saves_unless_it_keeps_its_change : ∃ drafts, Drafted .initial firstSaved drafts ∧
    firstSaved.sessions.contains 1 ∧ (firstSaved.session 1).faults = .empty ∧
    (∀ later, Relation.ReflTransGen (Undisturbed 1) (firstSaved.after (refresh 1 false)) later →
      ((save 1).run.run later).1 = .ok ()) ∧
    ∀ later, Relation.ReflTransGen (Undisturbed 1) (firstSaved.after (refresh 1 true)) later →
      ((save 1).run.run later).1 = .error (.outdated 0 1) := by
  obtain ⟨drafts, h, base⟩ : ∃ drafts, Drafted .initial firstSaved drafts ∧
      (drafts 1).map (·.base.revision) = some 0 :=
    ⟨_, .request _ (by decide +kernel) <| .request _ (by decide +kernel) <|
      .request _ (by decide +kernel) <| .login .empty <| .login .empty .start, by decide +kernel⟩
  have here : firstSaved.sessions.contains 1 := by decide +kernel
  have faults : (firstSaved.session 1).faults = .empty := by decide +kernel
  have saved : firstSaved.saved.revision = 1 := by decide +kernel
  obtain ⟨d, hd, base⟩ := Option.map_eq_some_iff.1 base
  refine ⟨drafts, h, here, faults, ?_, ?_⟩
  · exact (refresh_drops_or_keeps_copy h here faults false).2.2.2
  · have kept := refresh_drops_or_keeps_copy h here faults true
    simp only [if_true, hd, base, saved] at kept
    exact kept.2.2.2.2

-- It has asked for what is saved last, and does not see it.
theorem kept_changes_hide_what_is_saved :
    let s := firstSaved.after (refresh 1 true)
    ((refresh 1 true).run.run firstSaved).1 = .ok () ∧
    s.view.resolve "/a" = .ok (some ⟨⟨1⟩, "/a"⟩) ∧ (s.sessionView 1).resolve "/a" = .ok none ∧
    (s.sessionView 1).resolve "/b" = .ok (some ⟨⟨2⟩, "/b"⟩) ∧
    ((save 1).run.run s).1 = .error (.outdated 0 1) ∧
    (TreeError.outdated 0 1).kind = .invalidItemState := by
  decide +kernel

end Repository

end PolicyTree
