import Mathlib.Order.Defs.Unbundled
import Mathlib.Tactic.Common
import PolicyTree.Proofs.Repository.Operations

namespace PolicyTree.Repository

variable {α β ε : Type} {s s' s'' : Repository}

-- What stays as it is while events are delivered.
structure Calm (s s' : Repository) : Prop where
  saved      : s'.saved = s.saved
  registry   : s'.registry = s.registry
  nextId     : s'.nextId = s.nextId
  faults     : s'.faults = s.faults
  sessions   : s'.sessions = s.sessions
  collectors : ∀ n, s'.collectors.contains n = s.collectors.contains n

namespace Calm

theorem refl : Calm s s := ⟨rfl, rfl, rfl, rfl, rfl, fun _ => rfl⟩

theorem trans (h : Calm s s') (h' : Calm s' s'') : Calm s s'' where
  saved        := h'.saved.trans h.saved
  registry     := h'.registry.trans h.registry
  nextId       := h'.nextId.trans h.nextId
  faults       := h'.faults.trans h.faults
  sessions     := h'.sessions.trans h.sessions
  collectors n := (h'.collectors n).trans (h.collectors n)

theorem set_collector (n : Nat) (c : Collector) :
    Calm s { s with collectors := s.collectors.set n c } :=
  ⟨rfl, rfl, rfl, rfl, rfl, fun _ => Table.contains_set⟩

end Calm

-- What stays as it is while collectors tell of changes. No recorder hears anything.
structure Discreet (s s' : Repository) : Prop extends Calm s s' where
  dispatcher : s'.dispatcher = s.dispatcher
  recorders  : s'.recorders = s.recorders

namespace Discreet

theorem refl : Discreet s s := ⟨.refl, rfl, rfl⟩

theorem trans (h : Discreet s s') (h' : Discreet s' s'') : Discreet s s'' where
  toCalm     := h.toCalm.trans h'.toCalm
  dispatcher := h'.dispatcher.trans h.dispatcher
  recorders  := h'.recorders.trans h.recorders

theorem set_collector (n : Nat) (c : Collector) :
    Discreet s { s with collectors := s.collectors.set n c } := ⟨.set_collector n c, rfl, rfl⟩

end Discreet

instance : IsPreorder Repository Calm where
  refl _      := .refl
  trans _ _ _ := .trans

instance : IsPreorder Repository Discreet where
  refl _      := .refl
  trans _ _ _ := .trans

-- Whatever state the work begins with, it leaves one that is related to it.
def Relates (R : Repository → Repository → Prop) (work : StateM Repository α) : Prop :=
  ∀ s, R s (work.run s).2

namespace Relates

variable {R : Repository → Repository → Prop} [IsPreorder Repository R]

theorem pure {a : α} : Relates R (pure a) := fun s => refl_of R s

theorem bind {x : StateM Repository β} {f : β → StateM Repository α} (hx : Relates R x)
    (hf : ∀ b, Relates R (f b)) : Relates R (x >>= f) :=
  fun s => trans_of R (hx s) (hf _ _)

theorem get : Relates R (get : StateM Repository Repository) := fun s => refl_of R s

omit [IsPreorder Repository R] in
theorem modify {f : Repository → Repository} (h : ∀ s, R s (f s)) : Relates R (modify f) := h

theorem forM {l : List β} {f : β → StateM Repository PUnit} (h : ∀ b, Relates R (f b)) :
    Relates R (l.forM f) := by
  induction l
  case nil          => exact pure
  case cons b l hi  => exact (h b).bind fun _ => hi

end Relates

theorem discreet_query {n : Nat} {everything : α} {readOnly : Except AccessError α}
    {work : EvaluatorM α} : Relates Discreet (query n everything readOnly work).run := by
  intro s
  rw [run_query]
  split
  · exact .refl
  · exact .refl
  · exact .refl
  · exact ⟨⟨rfl, rfl, rfl, rfl, rfl, fun _ => Table.contains_set⟩, rfl, rfl⟩

theorem discreet_grants {n : Nat} {path : String} {permissions : Permissions} :
    Relates Discreet (grants n path permissions).run := by
  intro s
  rw [run_grants]
  exact discreet_query s

theorem discreet_ask {p : Probe} : Relates Discreet (Probe.ask p) := by
  refine .bind discreet_grants fun result => ?_
  cases result <;> exact .pure

theorem discreet_notify {change : PolicyChange} {l : ChangeListener} :
    Relates Discreet (notify change l) := by
  have same {f : Repository → Repository} (h : ∀ s, f s = { s with
      evaluators := (f s).evaluators, changeRecorders := (f s).changeRecorders }) :
      Relates Discreet (modify f) :=
    .modify fun s => h s ▸ ⟨⟨rfl, rfl, rfl, rfl, rfl, fun _ => rfl⟩, rfl, rfl⟩
  cases l
  case evaluator n => exact same fun _ => rfl
  case recorder n =>
    refine .bind .get fun s => ?_
    split
    case h_2 => exact .pure
    case h_1 r _ =>
      have keep (probe : Option (Option Bool)) : Relates Discreet (modify fun s : Repository =>
          { s with changeRecorders := s.changeRecorders.modify n fun r =>
            { r with unread := r.unread ++ [⟨change, probe⟩] } }) := same fun _ => rfl
      cases r.probe
      case none   => exact .bind .pure keep
      case some p => exact .bind (.bind discreet_ask fun _ => .pure) keep

theorem discreet_hear {n : Nat} {events : List Event} : Relates Discreet (hear n events) := by
  intro s
  rw [run_hear]
  split
  · exact .refl
  · split
    · exact .refl
    · exact (Discreet.set_collector n _).trans (Relates.forM (fun _ => discreet_notify) _)

-- Recorders keep what they hear, and may cancel a subscription.
theorem keepsCalm_deliver {d : Listener × List Event} : Relates Calm (deliver d) := by
  have same {f : Repository → Repository} (h : ∀ s, f s = { s with
      dispatcher := (f s).dispatcher, recorders := (f s).recorders }) : Relates Calm (modify f) :=
    .modify fun s => h s ▸ ⟨rfl, rfl, rfl, rfl, rfl, fun _ => rfl⟩
  rcases d with ⟨n | n, batch⟩
  · refine .bind .get fun s => ?_
    split
    case h_2 => exact .pure
    case h_1 r _ =>
      refine .bind (same fun _ => rfl) fun _ => .bind .get fun s => ?_
      split
      case h_2 => exact .pure
      case h_1 id _ =>
        refine .bind .get fun s => ?_
        split
        · exact same fun _ => rfl
        · exact .pure
  · exact fun s => (discreet_hear s).toCalm

theorem keepsCalm_dispatch (events : List Event) : Relates Calm (dispatch events) :=
  .bind .get fun _ => .forM fun _ => keepsCalm_deliver

theorem registry_after_save {n : Nat} : (s.after (save n)).registry = s.registry := by
  rcases after_save_cases (s := s) (n := n) with same | ⟨events, saved, _, told⟩
  case inl => rw [same]
  case inr => exact told ▸ (keepsCalm_dispatch events (s.committed n saved)).registry

-- A save that fails leaves everything as it was.
theorem eq_of_failed_save {n : Nat} {e : TreeError} (h : (save n).run.run s = (.error e, s')) :
    s' = s := by
  rw [run_save] at h
  split at h
  case h_1 => exact (Prod.mk.inj h).2.symm
  case h_2 =>
    split at h
    case h_1 => exact (Prod.mk.inj h).2.symm
    case h_2 => exact nomatch (Prod.mk.inj h).1

-- A save that goes through tells of what it has put in place.
theorem commit_of_save {n : Nat} (h : (save n).run.run s = (.ok (), s')) :
    ∃ events, (s.session n).commit s.saved = .ok (events, s'.saved) ∧
      ((dispatch events).run (s.committed n s'.saved)).2 = s' := by
  rw [run_save] at h
  split at h
  case h_1 => exact nomatch (Prod.mk.inj h).1
  case h_2 =>
    split at h
    case h_1 => exact nomatch (Prod.mk.inj h).1
    case h_2 events saved hcommit =>
      obtain ⟨-, rfl⟩ := Prod.mk.inj h
      have calm := keepsCalm_dispatch events (s.committed n saved)
      refine ⟨events, ?_, ?_⟩ <;> rw [calm.saved]
      · exact hcommit
      · rfl

end PolicyTree.Repository
