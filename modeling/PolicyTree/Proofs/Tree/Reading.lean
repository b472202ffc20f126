import Mathlib.Tactic.Common
import PolicyTree.Proofs.Success
import PolicyTree.Proofs.Tree.Location
import PolicyTree.Tree.Fault

namespace PolicyTree

@[simp] theorem Faults.check_empty {call : Call} : empty.check call = .ok () := by
  simp [empty, check, get?]

theorem TreeView.withFaults_empty (t : TreeView) : t.withFaults .empty = t := by
  have answer {α : Type} (call : Call) (x : Except TreeError α) :
      Faults.empty.answer call x = x := by
    simp [Faults.answer, bind, Except.bind]
  have find {α : Type} (call : Call) (x : Except TreeError (Option α)) :
      Faults.empty.find call x = x := by
    rw [Faults.find, Faults.check_empty]
    rfl
  simp [TreeView.withFaults, answer, find]

-- Whatever misbehaves, what is found is there.
theorem Faults.of_find {α : Type} {f : Faults} {call : Call} {x : Except TreeError (Option α)}
    {a : α} (h : f.find call x = .ok (some a)) : x = .ok (some a) := by
  have ⟨_, _, h⟩ := bind_eq_ok_iff.1 h
  split at h
  case isTrue  => exact nomatch pure_eq_ok_iff.1 h
  case isFalse => exact h

namespace Store

variable {s : Store} {t : NodeTypes} {id p : NodeId} {o : NodeHandle} {n : Node}
  {ns : List String} {name type : String}

theorem mem_effectiveTypes (hn : s.nodes[id]? = some n) :
    type ∈ s.effectiveTypes t id ↔ type ∈ t.expand n.types := by
  simp [effectiveTypes, hn]

theorem exists_of_mem_effectiveTypes (h : type ∈ s.effectiveTypes t id) :
    ∃ n, s.nodes[id]? = some n := by
  unfold effectiveTypes at h
  split at h
  case h_1 n hn => exact ⟨n, hn⟩
  case h_2      => simp at h

theorem view_isType (hn : s.nodes[o.id]? = some n) :
    (s.view t).isType o type = .ok (type ∈ s.effectiveTypes t o.id : Bool) := by
  simp [view, get, hn, effectiveTypes, bind, Except.bind, pure, Except.pure]

theorem view_child (hn : s.nodes[o.id]? = some n) :
    (s.view t).child o name = .ok ((s.child? o.id name).bind s.handle?) := by
  simp [view, get, hn, discard, Functor.mapConst, Except.map, bind, Except.bind, pure, Except.pure]

theorem view_property (hn : s.nodes[o.id]? = some n) :
    (s.view t).property o name = .ok n.properties[name]? := by
  simp [view, get, hn, bind, Except.bind, pure, Except.pure]

theorem view_propertyNames (hn : s.nodes[o.id]? = some n) :
    (s.view t).propertyNames o = .ok n.properties.keys := by
  simp [view, get, hn, bind, Except.bind, pure, Except.pure]

theorem view_nodeById : (s.view t).nodeById id = .ok (s.handle? id) := rfl

theorem getHandle_eq_ok_iff : s.getHandle id = .ok o ↔ s.handle? id = some o := by
  unfold getHandle
  cases s.handle? id <;> simp

theorem id_of_getHandle (h : s.getHandle id = .ok o) : o.id = id := by
  obtain ⟨_, _, rfl⟩ := Option.map_eq_some_iff.1 (getHandle_eq_ok_iff.1 h)
  rfl

theorem handle_of_getHandle (h : s.getHandle id = .ok o) : s.handle? o.id = some o := by
  rw [id_of_getHandle h]
  exact getHandle_eq_ok_iff.1 h

theorem handle_of_parent {up : NodeHandle} (h : (s.view t).parent o = .ok (some up)) :
    s.handle? up.id = some up := by
  obtain ⟨n, _, h⟩ := bind_eq_ok_iff.1 h
  split at h
  case h_2 => exact nomatch Except.ok.inj h
  case h_1 =>
    obtain ⟨up', hup, h⟩ := bind_eq_ok_iff.1 h
    obtain rfl := Option.some_inj.1 (Except.ok.inj h)
    exact handle_of_getHandle hup

namespace WellFormed

variable (h : s.WellFormed)

include h

theorem handle_eq (hs : s.Stands ns id) : s.handle? id = some ⟨id, Path.ofNames ns⟩ := by
  simp [handle?, h.pathOf_eq hs]

theorem getHandle_eq (hs : s.Stands ns id) : s.getHandle id = .ok ⟨id, Path.ofNames ns⟩ :=
  getHandle_eq_ok_iff.2 (h.handle_eq hs)

theorem handle_eq_some_iff : s.handle? id = some o ↔
    o.id = id ∧ ∃ ns, s.Stands ns id ∧ o.path = Path.ofNames ns := by
  constructor
  case mpr =>
    rintro ⟨rfl, ns, hs, hp⟩
    rw [h.handle_eq hs, ← hp]
  case mp =>
    intro ho
    obtain ⟨path, hp, rfl⟩ := Option.map_eq_some_iff.1 ho
    have ⟨ns, hs, hp⟩ := h.stands_of_pathOf hp
    exact ⟨rfl, ns, hs, hp⟩

theorem view_children (hn : s.nodes[o.id]? = some n) :
    (s.view t).children o = .ok (n.children.filterMap s.handle?) := by
  have each {l : List NodeId} (hl : ∀ c ∈ l, ∃ m, s.nodes[c]? = some m) :
      l.mapM s.getHandle = .ok (l.filterMap s.handle?) := by
    induction l
    case nil => rfl
    case cons c l hi =>
      have ⟨m, hm⟩ := hl c (by simp)
      have ⟨ns, hs⟩ := h.stands hm
      have hi := hi fun c hc => hl c (by simp [hc])
      simp [List.mapM_cons, h.getHandle_eq hs, h.handle_eq hs, hi, bind, Except.bind, pure,
        Except.pure]
  have := each fun c hc => (h.child hn hc).imp fun _ hm => hm.1
  simp [view, get, hn, this, bind, Except.bind]

theorem view_parent (hn : s.nodes[o.id]? = some n) (hp : n.parent = some p)
    (hs : s.Stands ns p) : (s.view t).parent o = .ok (some ⟨p, Path.ofNames ns⟩) := by
  simp [view, get, hn, hp, h.getHandle_eq hs, bind, Except.bind, pure, Except.pure]

omit h in
theorem view_parent_root (hn : s.nodes[o.id]? = some n) (hp : n.parent = none) :
    (s.view t).parent o = .ok none := by
  simp [view, get, hn, hp, bind, Except.bind, pure, Except.pure]

theorem view_resolve (hv : ∀ n ∈ ns, Path.IsSegment n) :
    ∃ found, (s.view t).resolve (Path.ofNames ns) = .ok found ∧
      ∀ o, found = some o ↔ s.Stands ns o.id ∧ o.path = Path.ofNames ns := by
  refine ⟨(ns.foldlM s.child? s.root).bind s.handle?, ?_, fun o => ?_⟩
  · simp [view, resolve_ofNames hv, bind, Except.bind, pure, Except.pure]
  · rw [Option.bind_eq_some_iff]
    constructor
    case mp =>
      rintro ⟨id, hid, ho⟩
      obtain ⟨rfl, ms, hs, hp⟩ := h.handle_eq_some_iff.1 ho
      obtain rfl := h.stands_unique hs (h.foldlM_child_iff.1 hid)
      exact ⟨hs, hp⟩
    case mpr =>
      rintro ⟨hs, hp⟩
      exact ⟨o.id, h.foldlM_child_iff.2 hs, h.handle_eq_some_iff.2 ⟨rfl, ns, hs, hp⟩⟩

theorem view_resolve_iff (hv : ∀ n ∈ ns, Path.IsSegment n) :
    (s.view t).resolve (Path.ofNames ns) = .ok (some o) ↔
      s.Stands ns o.id ∧ o.path = Path.ofNames ns := by
  have ⟨_, hr, hf⟩ := h.view_resolve (t := t) hv
  rw [hr, Except.ok.injEq, hf]

theorem of_resolve {path : String} (hr : (s.view t).resolve path = .ok (some o)) :
    o.path = path ∧ ∃ ns, s.Stands ns o.id ∧ path = Path.ofNames ns := by
  have valid : Path.validate path = .ok () := by
    have hr : (s.resolve path >>= fun found => pure (found.bind s.handle?)) = .ok (some o) := hr
    rw [resolve, bind_eq_ok_iff] at hr
    obtain ⟨_, hr, _⟩ := hr
    obtain ⟨_, valid, _⟩ := bind_eq_ok_iff.1 hr
    exact liftM_path_eq_ok_iff.1 valid
  obtain ⟨ns, hv, rfl⟩ := Path.exists_names_of_validate valid
  obtain ⟨found, hfound, stands⟩ := h.view_resolve (t := t) hv
  have := (stands o).1 (Except.ok.inj (hfound.symm.trans hr))
  exact ⟨this.2, ns, this.1, rfl⟩

theorem handle_eq_none_iff : s.handle? id = none ↔ id ∉ s.nodes := by
  rw [mem_nodes_iff, ← h.pathOf_isSome_iff, handle?, Option.map_eq_none_iff,
    Option.eq_none_iff_forall_ne_some, not_exists]

end WellFormed

end Store

end PolicyTree
