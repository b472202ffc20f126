import Mathlib.Logic.Relation
import Mathlib.Tactic.Common
import PolicyTree.Policy.Editor
import PolicyTree.Proofs.Success
import PolicyTree.Proofs.Tree.Following

namespace PolicyTree

namespace SessionM

variable {α β ε : Type} {saved : Saved} {P P' E E' : Desk → Prop} {Q Q' : α → Desk → Prop}

-- Work that is begun where `P` holds ends where `Q` holds of its result, or fails where `E` holds.
def Ensures (saved : Saved) (P : Desk → Prop) (work : SessionM ε α) (Q : α → Desk → Prop)
    (E : Desk → Prop) : Prop :=
  ∀ desk, P desk → match work.run' saved desk with
    | (.ok a, desk) => Q a desk
    | (.error _, desk) => E desk

def copy (saved : Saved) (session : Session) : WorkingCopy :=
  session.working.getD ⟨saved.store, saved.revision⟩

theorem run'_bind {x : SessionM ε β} {f : β → SessionM ε α} {desk : Desk} :
    (x >>= f).run' saved desk = match x.run' saved desk with
      | (.ok b, desk) => (f b).run' saved desk
      | (.error e, desk) => (.error e, desk) := by
  simp only [run', ReaderT.run_bind, ExceptT.run_bind, StateT.run_bind]
  rcases (ReaderT.run x saved).run.run desk with ⟨_ | b, desk'⟩ <;> rfl

def answered (answer : Except ε α) : SessionM ε α :=
  match answer with
  | .ok a => pure a
  | .error e => throw e

-- What a write goes on to do, given whether its call fails and what the change makes of the copy.
def writeTo (copy : WorkingCopy) (checked : Except TreeError Unit)
    (changed : Except TreeError (α × Store)) : SessionM TreeError α := do
  if let .error e := checked then throw e
  match changed with
  | .ok (answer, store) =>
    modify fun d => { d with session.working := some { copy with store } }
    return answer
  | .error e =>
    modify fun d => { d with session.working := some copy }
    throw e

theorem run'_ask {question : TreeView → Except ε α} {desk : Desk} :
    (ask question).run' saved desk = (question (desk.session.view saved), desk) := by
  show (answered (question (desk.session.view saved))).run' saved desk = _
  cases question (desk.session.view saved) <;> rfl

theorem run'_write {call : Call} {change : Store → Except TreeError (α × Store)} {desk : Desk} :
    (write call change).run' saved desk = match desk.session.faults.check call with
      | .error e => (.error e, desk)
      | .ok () => match change (copy saved desk.session).store with
        | .ok (a, store) => (.ok a, { desk with
            session.working := some { copy saved desk.session with store } })
        | .error e => (.error e, { desk with
            session.working := some (copy saved desk.session) }) := by
  show (writeTo (copy saved desk.session) (desk.session.faults.check call)
    (change (copy saved desk.session).store)).run' saved desk = _
  rcases desk.session.faults.check call with e | _
  · rfl
  · rcases change (copy saved desk.session).store with e | ⟨a, store⟩ <;> rfl

namespace Ensures

theorem weaken {work : SessionM ε α} (h : Ensures saved P work Q E) (hP : ∀ d, P' d → P d)
    (hQ : ∀ a d, Q a d → Q' a d) (hE : ∀ d, E d → E' d) : Ensures saved P' work Q' E' := by
  intro desk hd
  have h := h desk (hP desk hd)
  rcases hr : work.run' saved desk with ⟨_ | a, desk'⟩ <;> rw [hr] at h
  · exact hE _ h
  · exact hQ _ _ h

theorem pure {a : α} (h : ∀ desk, P desk → Q a desk) :
    Ensures saved P (pure a : SessionM ε α) Q E := h

theorem throw {e : ε} (h : ∀ desk, P desk → E desk) :
    Ensures saved P (throw e : SessionM ε α) Q E := h

theorem bind {x : SessionM ε β} {f : β → SessionM ε α} {R : β → Desk → Prop}
    (hx : Ensures saved P x R E) (hf : ∀ b, Ensures saved (R b) (f b) Q E) :
    Ensures saved P (x >>= f) Q E := by
  intro desk hd
  have hx := hx desk hd
  rw [run'_bind]
  rcases hr : x.run' saved desk with ⟨_ | b, desk'⟩ <;> rw [hr] at hx
  · exact hx
  · exact hf b desk' hx

theorem ask {question : TreeView → Except ε α}
    (h : ∀ desk, P desk → ∀ a, question (desk.session.view saved) = .ok a → Q a desk)
    (hE : ∀ desk, P desk → E desk) : Ensures saved P (ask question) Q E := by
  intro desk hd
  rw [run'_ask]
  rcases hq : question (desk.session.view saved) with _ | a
  · exact hE desk hd
  · exact h desk hd a hq

theorem write {call : Call} {change : Store → Except TreeError (α × Store)}
    (h : ∀ desk, P desk → ∀ a store, change (copy saved desk.session).store = .ok (a, store) →
      Q a { desk with session.working := some { copy saved desk.session with store } })
    (hE : ∀ desk, P desk → E desk ∧
      E { desk with session.working := some (copy saved desk.session) }) :
    Ensures saved P (write call change) Q E := by
  intro desk hd
  rw [run'_write]
  rcases desk.session.faults.check call with _ | _
  · exact (hE desk hd).1
  · rcases hc : change (copy saved desk.session).store with _ | ⟨a, store⟩
    · exact (hE desk hd).2
    · exact h desk hd a store hc

theorem takeId {Q : NodeId → Desk → Prop}
    (h : ∀ desk, P desk → Q desk.nextId { desk with nextId := desk.nextId.next }) :
    Ensures saved P (takeId : SessionM ε NodeId) Q E := h

theorem forM {l : List β} {f : β → SessionM ε PUnit}
    (h : ∀ b ∈ l, Ensures saved P (f b) (fun _ => P) E) :
    Ensures saved P (l.forM f) (fun _ => P) E := by
  induction l
  case nil => exact pure fun _ => id
  case cons b l hi =>
    show Ensures saved P (f b >>= fun _ => l.forM f) _ E
    exact (h b (by simp)).bind fun _ => hi fun c hc => h c (by simp [hc])

theorem lift {work : SessionM TreeError α} (h : Ensures saved P work Q E) :
    Ensures saved P (liftM work : SessionM AccessError α) Q E := by
  intro desk hd
  have h := h desk hd
  have lifted : (liftM work : SessionM AccessError α).run' saved desk =
      ((work.run' saved desk).1.mapError .tree, (work.run' saved desk).2) := rfl
  rw [lifted]
  rcases hr : work.run' saved desk with ⟨_ | a, desk'⟩ <;> rw [hr] at h <;> exact h

variable {work : SessionM ε α} {desk : Desk}

-- What holds however work ends.
theorem always (h : Ensures saved P work (fun _ => E) E) (hd : P desk) :
    E (work.run' saved desk).2 := by
  have h := h desk hd
  rcases hr : work.run' saved desk with ⟨_ | _, desk'⟩ <;> rw [hr] at h <;> exact h

theorem of_ok {a : α} (h : Ensures saved P work Q E) (hd : P desk)
    (done : (work.run' saved desk).1 = .ok a) : Q a (work.run' saved desk).2 := by
  have h := h desk hd
  rcases hr : work.run' saved desk with ⟨_ | b, desk'⟩ <;> rw [hr] at h done
  case error => cases done
  case ok =>
    obtain rfl := Except.ok.inj done
    exact h

end Ensures

-- Work that is put together from questions and writes.
inductive Composed : {α ε : Type} → SessionM ε α → Prop
  | pure {α ε : Type} (a : α) : Composed (pure a : SessionM ε α)
  | throw {α ε : Type} (e : ε) : Composed (throw e : SessionM ε α)
  | bind {α β ε : Type} {x : SessionM ε β} {f : β → SessionM ε α} :
    Composed x → (∀ b, Composed (f b)) → Composed (x >>= f)
  | lift {α : Type} {work : SessionM TreeError α} :
    Composed work → Composed (liftM work : SessionM AccessError α)
  | ask {α ε : Type} (question : TreeView → Except ε α) : Composed (ask question)
  | addNode (parent : NodeHandle) (name type : String) : Composed (addNode parent name type)
  | addMixin (node : NodeHandle) (mixin : String) : Composed (addMixin node mixin)
  | setProperty (node : NodeHandle) (name : String) (value : Value) :
    Composed (setProperty node name value)
  | removeProperty (node : NodeHandle) (name : String) : Composed (removeProperty node name)
  | removeNode (node : NodeHandle) : Composed (removeNode node)

theorem Composed.forM {β ε : Type} {l : List β} {f : β → SessionM ε PUnit}
    (h : ∀ b, Composed (f b)) : Composed (l.forM f) := by
  induction l
  case nil         => exact .pure _
  case cons b l hi => exact .bind (h b) fun _ => hi

-- Policies are edited by questions and writes.

-- What is left to do to store a policy once its owner may have one, and once none is there any
-- more.

def storeAnew (p : Policy) : SessionM TreeError Unit := do
  let policy ← addNode p.owner Policy.nodeName Policy.listType
  ((Policy.nodeNames (p.entries.map (·.isAllow))).zip p.entries).forM fun (name, e) =>
    Policy.storeEntry policy name e

def replaceFormer (p : Policy) : SessionM TreeError Unit := do
  if let some former ← ask (·.child p.owner Policy.nodeName) then
    removeNode former
  storeAnew p

theorem composed_storeEntry {policy : NodeHandle} {name : String} {e : Entry} :
    Composed (Policy.storeEntry policy name e) :=
  .bind (.addNode ..) fun _ => .bind (.setProperty ..) fun _ => .bind (.setProperty ..) fun _ =>
    .forM fun _ => .setProperty ..

theorem composed_store {p : Policy} : Composed p.store := by
  have anew : Composed (storeAnew p) :=
    .bind (.addNode ..) fun policy => .forM fun _ => composed_storeEntry
  have replaced : Composed (replaceFormer p) := by
    refine .bind (.ask _) fun former => ?_
    cases former
    case none   => exact anew
    case some f => exact .bind (.removeNode f) fun _ => anew
  refine .bind (.ask _) fun isControlled => ?_
  cases isControlled
  case true  => exact replaced
  case false => exact .bind (.addMixin ..) fun _ => replaced

theorem composed_setPolicy {path : String} {p : Policy} : Composed (Editor.setPolicy path p) := by
  refine .bind (.ask _) fun node => ?_
  split
  · exact .bind (.throw _) fun _ => .lift composed_store
  · exact .lift composed_store

theorem composed_removePolicy {path : String} : Composed (Editor.removePolicy path) :=
  .bind (.ask _) fun _ => .lift (.removeNode _)

end SessionM

-- Working copies that may be saved.

-- No node has an id that is still to be handed out.
def Store.Below (s : Store) (next : NodeId) : Prop := ∀ id ∈ s.nodes, id.value < next.value

structure Saved.Sound (saved : Saved) (next : NodeId) : Prop where
  wellFormed : saved.store.WellFormed
  below      : saved.store.Below next
  types      : saved.types = .initial

-- A copy that was taken before the last save is of no use any more.
structure WorkingCopy.Sound (saved : Saved) (next : NodeId) (c : WorkingCopy) : Prop where
  base_le    : c.base ≤ saved.revision
  wellFormed : c.base = saved.revision → c.store.WellFormed
  follows    : c.base = saved.revision → saved.store.Follows c.store
  below      : c.base = saved.revision → c.store.Below next

structure Desk.Sound (saved : Saved) (desk : Desk) : Prop where
  tree : saved.Sound desk.nextId
  copy : ∀ c, desk.session.working = some c → c.Sound saved desk.nextId

section

variable {saved : Saved} {next next' fresh : NodeId} {c : WorkingCopy} {desk : Desk} {s : Store}

theorem Store.Below.mono (h : s.Below next) (hle : next.value ≤ next'.value) : s.Below next' :=
  fun id hid => Nat.lt_of_lt_of_le (h id hid) hle

theorem Desk.Sound.copied (h : desk.Sound saved) :
    (SessionM.copy saved desk.session).Sound saved desk.nextId := by
  unfold SessionM.copy
  cases hw : desk.session.working
  case none =>
    exact ⟨Nat.le_refl _, fun _ => h.tree.wellFormed, fun _ => .refl, fun _ => h.tree.below⟩
  case some c => exact h.copy c hw

theorem WorkingCopy.Sound.mono (h : c.Sound saved next) (hle : next.value ≤ next'.value) :
    c.Sound saved next' :=
  { h with below := fun hb => (h.below hb).mono hle }

theorem WorkingCopy.Sound.written (h : c.Sound saved next) (hs : saved.Sound next)
    (hw : c.base = saved.revision → Store.Written c.store s fresh)
    (old : c.base = saved.revision → ∀ id ∈ s.nodes, id ∈ c.store.nodes ∨
      id ∉ saved.store.nodes ∧ id.value < next.value) :
    WorkingCopy.Sound saved next { c with store := s } where
  base_le := h.base_le
  wellFormed hb := (h.wellFormed hb).written (hw hb)
  follows hb := .trans hs.wellFormed ((h.wellFormed hb).written (hw hb)) (h.follows hb)
    (.written (h.wellFormed hb) (hw hb))
    fun id hid hid' => (old hb id hid').resolve_right fun hnew => hnew.1 hid
  below hb id hid := (old hb id hid).elim (h.below hb id) fun hnew => hnew.2

end

-- What work comes to, turn by turn.

inductive Desk.Turn (saved : Saved) (desk : Desk) : Desk → Prop
  | take : Turn saved desk { desk with nextId := desk.nextId.next }
  | copy : Turn saved desk { desk with session.working := some (SessionM.copy saved desk.session) }
  | add {s : Store} {p : NodeId} {name type : String}
    (h : (SessionM.copy saved desk.session).store.nodes[desk.nextId]? = none →
      Store.Added (SessionM.copy saved desk.session).store s desk.nextId p name type) :
    Turn saved desk {
      session := { desk.session with
        working := some { SessionM.copy saved desk.session with store := s } }
      nextId  := desk.nextId.next }
  | edit {s : Store} {fresh : NodeId}
    (h : Store.Written (SessionM.copy saved desk.session).store s fresh)
    (old : ∀ id ∈ s.nodes, id ∈ (SessionM.copy saved desk.session).store.nodes) :
    Turn saved desk { desk with
      session.working := some { SessionM.copy saved desk.session with store := s } }

abbrev Desk.Turns (saved : Saved) : Desk → Desk → Prop := Relation.ReflTransGen (Desk.Turn saved)

namespace SessionM

variable {α ε : Type} {saved : Saved} {desk : Desk}

theorem turns_write {call : Call} {change : Store → Except TreeError (α × Store)}
    (h : ∀ a s, change (copy saved desk.session).store = .ok (a, s) → ∃ fresh,
      Store.Written (copy saved desk.session).store s fresh ∧
      ∀ id ∈ s.nodes, id ∈ (copy saved desk.session).store.nodes) :
    desk.Turns saved ((write call change).run' saved desk).2 := by
  rw [run'_write]
  split
  case h_1 => exact .refl
  case h_2 =>
    split
    case h_1 a s hs =>
      have ⟨_, hw, old⟩ := h a s hs
      exact .single (.edit hw old)
    case h_2 => exact .single .copy

theorem turns_addNode {parent : NodeHandle} {name type : String} :
    desk.Turns saved ((addNode parent name type).run' saved desk).2 := by
  show desk.Turns saved ((takeId >>= fun id => write .addNode fun store => do
    let store ← store.addNode id parent.id name type
    return (← store.getHandle id, store)).run' saved desk).2
  rw [run'_bind]
  show desk.Turns saved ((write _ _).run' saved { desk with nextId := desk.nextId.next }).2
  rw [run'_write]
  split
  case h_1 => exact .single .take
  case h_2 =>
    split
    case h_2 => exact .tail (.single .take) .copy
    case h_1 _ a s hs =>
      have ⟨hs, _⟩ := Store.new_eq_ok_iff.1 hs
      exact .single (.add fun hid => Store.added_of_addNode hid hs)

theorem Composed.turns {work : SessionM ε α} (h : Composed work) :
    desk.Turns saved (work.run' saved desk).2 := by
  induction h generalizing desk
  case pure  => exact .refl
  case throw => exact .refl
  case bind x f _ _ hx hf =>
    have hx : desk.Turns saved _ := hx
    rw [run'_bind]
    rcases hr : x.run' saved desk with ⟨_ | b, desk'⟩ <;> rw [hr] at hx
    · exact hx
    · exact hx.trans (hf b)
  case lift work _ hi => exact hi
  case ask     => rw [run'_ask]
  case addNode => exact turns_addNode
  case addMixin =>
    refine turns_write fun a s hs => ?_
    have edited := Store.edited_of_addMixin (unit_eq_ok_iff.1 hs)
    exact ⟨desk.nextId, .edited edited, fun _ => edited.mem⟩
  case setProperty =>
    refine turns_write fun a s hs => ?_
    have edited := Store.edited_of_setProperty (unit_eq_ok_iff.1 hs)
    exact ⟨desk.nextId, .edited edited, fun _ => edited.mem⟩
  case removeProperty =>
    refine turns_write fun a s hs => ?_
    have edited := Store.edited_of_removeProperty hs
    exact ⟨desk.nextId, .edited edited, fun _ => edited.mem⟩
  case removeNode =>
    refine turns_write fun a s hs => ?_
    obtain ⟨p, removed⟩ := Store.removed_of_removeNode (unit_eq_ok_iff.1 hs)
    exact ⟨desk.nextId, .removed removed, fun _ => removed.mem⟩

end SessionM

section

variable {saved : Saved} {desk desk' : Desk}

-- Every write makes of the copy another one that may be saved.
theorem Desk.Sound.turn (h : desk.Sound saved) (ht : desk.Turn saved desk') :
    desk'.Sound saved := by
  have next : desk.nextId.value ≤ desk.nextId.next.value := Nat.le_succ _
  have tree : saved.Sound desk.nextId.next := { h.tree with below := h.tree.below.mono next }
  have hc := h.copied
  cases ht
  case take => exact ⟨tree, fun c hw => (h.copy c hw).mono next⟩
  case copy => exact ⟨h.tree, fun c hw => Option.some_inj.1 hw ▸ hc⟩
  case edit s fresh hw old =>
    refine ⟨h.tree, fun c hw' => ?_⟩
    obtain rfl := Option.some_inj.1 hw'
    exact hc.written h.tree (fun _ => hw) fun _ id hid => .inl (old id hid)
  case add s p name type ha =>
    have fresh (hb : (SessionM.copy saved desk.session).base = saved.revision) :
        (SessionM.copy saved desk.session).store.nodes[desk.nextId]? = none :=
      Std.ExtTreeMap.getElem?_eq_none fun hid => Nat.lt_irrefl _ (hc.below hb _ hid)
    refine ⟨tree, fun c hw' => ?_⟩
    obtain rfl := Option.some_inj.1 hw'
    refine (hc.mono next).written tree (fun hb => .added (ha (fresh hb))) fun hb id hid => ?_
    refine ((ha (fresh hb)).mem hid).imp_right ?_
    rintro rfl
    exact ⟨fun hs => Nat.lt_irrefl _ (h.tree.below _ hs), Nat.lt_succ_self _⟩

theorem Desk.Sound.turns (h : desk.Sound saved) (ht : desk.Turns saved desk') :
    desk'.Sound saved := by
  induction ht
  case refl      => exact h
  case tail t hi => exact hi.turn t

-- Ids are handed out and never taken back.
theorem Desk.Turns.nextId_le (ht : desk.Turns saved desk') :
    desk.nextId.value ≤ desk'.nextId.value := by
  induction ht
  case refl => exact Nat.le_refl _
  case tail t hi =>
    cases t
    case take => exact Nat.le_succ_of_le hi
    case copy => exact hi
    case add  => exact Nat.le_succ_of_le hi
    case edit => exact hi

-- What is said of the copy as long as it has a certain node. The id of the node is one that was
-- handed out, so no other node will have it.
def Desk.Bears (saved : Saved) (x : NodeId) (G : Store → Prop) (desk : Desk) : Prop :=
  let c := SessionM.copy saved desk.session
  c.base = saved.revision → x.value < desk.nextId.value ∧ (x ∈ c.store.nodes → G c.store)

theorem Desk.Bears.turns {x : NodeId} {G : Store → Prop}
    (hG : ∀ {c s : Store} {fresh : NodeId}, c.WellFormed → Store.Written c s fresh → x ∈ c.nodes →
      x ∈ s.nodes → G c → G s)
    (sound : desk.Sound saved) (h : desk.Bears saved x G) (ht : desk.Turns saved desk') :
    desk'.Bears saved x G := by
  induction ht
  case refl => exact h
  case tail desk desk' turns t hi =>
    have sound := sound.turns turns
    have wf hb := sound.copied.wellFormed hb
    cases t
    case take => exact fun hb => (hi hb).imp_left Nat.lt_succ_of_lt
    case copy => exact hi
    case edit s fresh hw old =>
      intro hb
      obtain ⟨hx, hg⟩ := hi hb
      exact ⟨hx, fun hs => hG (wf hb) hw (old x hs) hs (hg (old x hs))⟩
    case add s p name type ha =>
      intro hb
      obtain ⟨hx, hg⟩ := hi hb
      have added := ha <| Std.ExtTreeMap.getElem?_eq_none fun hid =>
        Nat.lt_irrefl _ (sound.copied.below hb _ hid)
      refine ⟨Nat.lt_succ_of_lt hx, fun hs => ?_⟩
      have hc := (added.mem hs).resolve_right <| by
        rintro rfl
        exact Nat.lt_irrefl _ hx
      exact hG (wf hb) (.added added) hc hs (hg hc)

end

namespace SessionM

variable {α ε : Type} {saved : Saved} {work : SessionM ε α} {P E E' : Desk → Prop}
  {Q Q' : α → Desk → Prop}

theorem Ensures.and (h : Ensures saved P work Q E) (h' : Ensures saved P work Q' E') :
    Ensures saved P work (fun a d => Q a d ∧ Q' a d) (fun d => E d ∧ E' d) := by
  intro desk hd
  have h := h desk hd
  have h' := h' desk hd
  rcases hr : work.run' saved desk with ⟨_ | _, desk'⟩ <;> rw [hr] at h h' <;> exact ⟨h, h'⟩

-- Whatever every turn keeps is kept by work.
theorem Composed.ensures (hw : Composed work)
    (h : ∀ {d d' : Desk}, P d → d.Turns saved d' → P d') :
    Ensures saved P work (fun _ => P) P := by
  intro desk hd
  have turns : desk.Turns saved _ := hw.turns
  have h := h hd turns
  rcases hr : work.run' saved desk with ⟨_ | _, desk'⟩ <;> rw [hr] at h <;> exact h

end SessionM

end PolicyTree
