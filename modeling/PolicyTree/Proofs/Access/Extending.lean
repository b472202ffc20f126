import PolicyTree.Proofs.Access.Removing
import PolicyTree.Proofs.Comparison

namespace PolicyTree

variable {s : Store} {t : NodeTypes} {r : Registry} {ps qs : PrincipalSet} {ids : List NodeId}
  {b b' : Bench} {path : String}

theorem Store.entriesOn_prefix (more : ps.names <+: qs.names) :
    s.entriesOn t r ps ids <+: s.entriesOn t r qs ids := by
  obtain ⟨names, hq⟩ := more
  rw [entriesOn, entriesOn, ← hq, List.flatMap_append]
  exact List.prefix_append ..

theorem Store.WellFormed.decideAfresh_keptBy (h : s.WellFormed)
    (readable : ∀ x, ¬s.Malformed t r x) (more : ps.names <+: qs.names) {o : NodeHandle}
    {isPolicyItem : Bool} (hg : governor (s.view t) path = .ok (o, isPolicyItem)) :
    ∃ d d', decideAfresh (s.view t) r ps path = .ok d ∧
      decideAfresh (s.view t) r qs path = .ok d' ∧ d.KeptBy d' := by
  have ⟨way, hw, decided⟩ := h.decideAfresh_of_governor ps readable hg
  have ⟨way', hw', decided'⟩ := h.decideAfresh_of_governor qs readable hg
  obtain rfl := Option.some_inj.1 (hw.symm.trans hw')
  obtain ⟨es, hes⟩ : s.entriesOn t r ps _ <+: s.entriesOn t r qs _ := entriesOn_prefix more
  exact ⟨_, _, decided, decided', hes ▸ keptBy_append⟩

theorem decideAfresh_of_no_governor {tree : TreeView} {e : AccessError}
    (hg : governor tree path = .error e) : decideAfresh tree r ps path = .error e := by
  rw [decideAfresh_eq, ← governor, hg]
  rfl

-- Whatever a new evaluator decides for some principals, one for more principals after them decides
-- the same way. Both decide on every path that a node governs, and neither on any other.
theorem lower_priority_overturns_nothing (h : s.WellFormed) (readable : ∀ x, ¬s.Malformed t r x)
    (more : ps.names <+: qs.names) (hb : b.Built s t r ps) (hb' : b'.Built s t r qs)
    (path : String) :
    let decision (b : Bench) := ((EvaluatorM.decision (s.view t) r path).run.run b).1
    (∀ g, governor (s.view t) path = .ok g →
      ∃ d d', decision b = .ok d ∧ decision b' = .ok d' ∧ d.KeptBy d') ∧
    ∀ e, governor (s.view t) path = .error e → decision b = .error e ∧ decision b' = .error e := by
  intro decision
  have found : decision b = decideAfresh (s.view t) r ps path := hb.decision h
  have found' : decision b' = decideAfresh (s.view t) r qs path := hb'.decision h
  rw [found, found']
  exact ⟨fun _ hg => h.decideAfresh_keptBy readable more hg,
    fun _ hg => ⟨decideAfresh_of_no_governor hg, decideAfresh_of_no_governor hg⟩⟩

-- The root denies bob to write before it allows it to alice. After alice, bob has no say in it.
theorem bob_overturns_nothing_of_alice :
    let alice := PrincipalSet.ofList [.named "alice"]
    let both := PrincipalSet.ofList [.named "alice", .named "bob"]
    let bench (ps : PrincipalSet) : Bench := ⟨.detached ps 0 8 8, .new 8 ⟨0⟩⟩
    let decision (b : Bench) :=
      ((EvaluatorM.decision (finished.view .initial) .initial "/page").run.run b).1
    finished.WellFormed ∧ (∀ x, ¬finished.Malformed .initial .initial x) ∧
    alice.names <+: both.names ∧ (bench alice).Built finished .initial .initial alice ∧
    (bench both).Built finished .initial .initial both ∧
    ∃ d d', decision (bench alice) = .ok d ∧ decision (bench both) = .ok d' ∧ d.KeptBy d' ∧
      PrivilegeBits.write ⊆ d'.allowPrivileges := by
  intro alice both bench decision
  have wf : finished.WellFormed := (Store.reachable_afterAll (by decide +kernel)).wellFormed.turns
    (Store.turns_afterAll (by decide +kernel))
  have readable : ∀ x, ¬finished.Malformed .initial .initial x :=
    wf.readable_of_loads (by decide +kernel)
  have more : alice.names <+: both.names := by decide +kernel
  have built (ps : PrincipalSet) : (bench ps).Built finished .initial .initial ps :=
    .of_fresh .detached
  have governed : governor (finished.view .initial) "/page" = .ok (⟨⟨1⟩, "/page"⟩, false) := by
    decide +kernel
  have ⟨decides, _⟩ :=
    lower_priority_overturns_nothing wf readable more (built alice) (built both) "/page"
  obtain ⟨d, d', decided, decided', kept⟩ := decides _ governed
  obtain ⟨_, found, allowed⟩ := map_eq_ok_iff.1 <| show
      (fun d => decide (PrivilegeBits.write ⊆ d.allowPrivileges)) <$> decision (bench alice) =
        .ok true by decide +kernel
  obtain rfl := Except.ok.inj (decided.symm.trans found)
  exact ⟨wf, readable, more, built alice, built both, d, d', decided, decided', kept,
    FlagSet.subset_trans (of_decide_eq_true allowed) kept.allowPrivileges⟩

end PolicyTree
