import PolicyTree.Proofs.Observation.Dispatching
import PolicyTree.Proofs.Repository.Saving

namespace PolicyTree.Repository

variable {s : Repository} {m n : Nat} {batch : List Event} {d : Listener × List Event}
  {ds : List (Listener × List Event)}

-- A dispatch gives something to each subscription that there is at its start and that accepts some
-- of the events, even if listeners cancel it on the way.
theorem run_dispatch (events : List Event) : (dispatch events).run s =
    (((s.dispatcher.subscriptions.filter fun sub => events.any sub.filter.accepts).map
      fun sub => (sub.listener, events.filter sub.filter.accepts)).forM deliver).run s := by
  rw [dispatch_eq_handOut, ← Dispatcher.deliveries_eq_map]
  rfl

def unread? (s : Repository) (n : Nat) : Option (List (List Event)) :=
  (s.recorders.table.get? n).map (·.unread)

def batchesFor (n : Nat) (ds : List (Listener × List Event)) : List (List Event) :=
  (ds.filter (·.1 = .recorder n)).map (·.2)

-- What recorders have kept stays as it is when one of them cancels a subscription.
def SameRecorders (s s' : Repository) : Prop := s'.recorders.table = s.recorders.table

instance : IsPreorder Repository SameRecorders where
  refl _           := rfl
  trans _ _ _ h h' := Eq.trans h' h

theorem table_deliver : ((deliver (.recorder m, batch)).run s).2.recorders.table =
    (s.recorders.table.get? m).elim s.recorders.table
      fun r => s.recorders.table.set m (r.hear batch) := by
  rw [deliver, run_state_get_bind]
  cases s.recorders.table.get? m
  case none   => rfl
  case some r =>
    rw [run_state_modify_bind]
    refine Relates.bind (R := SameRecorders) .get (fun s => ?_) _
    split
    case h_2 => exact .pure
    case h_1 =>
      refine .bind .get fun s => ?_
      split
      · exact .modify fun _ => rfl
      · exact .pure

theorem unread_deliver :
    ((deliver d).run s).2.unread? n = (s.unread? n).map (· ++ batchesFor n [d]) := by
  rcases d with ⟨m | m, batch⟩
  case collector =>
    show ((hear m batch).run s).2.unread? n = _
    rw [unread?, (discreet_hear s).recorders]
    simp [unread?, batchesFor, Function.comp_def]
  case recorder =>
    rw [unread?, unread?, table_deliver]
    by_cases hn : n = m
    case pos =>
      subst hn
      cases hr : s.recorders.table.get? n <;>
        simp [Table.get?_set, hr, batchesFor, Recorder.hear]
    case neg =>
      have other : batchesFor n [(.recorder m, batch)] = [] := by simp [batchesFor, Ne.symm hn]
      cases s.recorders.table.get? m <;> simp [Table.get?_set, hn, other, Function.comp_def]

theorem unread_forM :
    ((ds.forM deliver).run s).2.unread? n = (s.unread? n).map (· ++ batchesFor n ds) := by
  induction ds generalizing s
  case nil =>
    show s.unread? n = _
    simp [batchesFor]
  case cons d ds hi =>
    show ((ds.forM deliver).run ((deliver d).run s).2).2.unread? n = _
    have split : batchesFor n (d :: ds) = batchesFor n [d] ++ batchesFor n ds := by
      simp only [batchesFor, ← List.map_append, ← List.filter_append, List.singleton_append]
    rw [hi, unread_deliver, Option.map_map, split]
    simp [Function.comp_def]

-- What a recorder hears of a dispatch is one batch for each of its subscriptions that there were at
-- the start and that accept some of the events.
theorem dispatch_reaches_recorders (events : List Event) :
    ((dispatch events).run s).2.unread? n = (s.unread? n).map (· ++
      (s.dispatcher.subscriptions.filter fun sub =>
        sub.listener = .recorder n && events.any sub.filter.accepts).map
          fun sub => events.filter sub.filter.accepts) := by
  rw [run_dispatch, unread_forM, batchesFor, List.filter_map, List.filter_filter, List.map_map]
  rfl

end PolicyTree.Repository
