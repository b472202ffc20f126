import PolicyTree.Proofs.Repository.Developing

namespace PolicyTree.Repository

open Relation (ReflTransGen)

variable {s : Repository} {n c : Nat} {ps : PrincipalSet} {path : String}

-- The path has been governed by the same node since the evaluator held no decision on it.
def Steady (n : Nat) (path : String) (s' : Repository) : Prop :=
  ∃ s, Developed s ∧
    (∀ e, s.evaluators.get? n = some (.acl e) → e.decisions.contains path = false) ∧
    ReflTransGen (fun s s' => Develops s s' ∧ governor s.view path = governor s'.view path) s s'

-- A new repository holds nothing yet.
theorem Developed.dates (h : Developed s) : Dates (.initial .initial) n c ps path False s := by
  have blank : (initial .initial).Blank n c ps path :=
    ⟨fun _ hc => by simp [initial, Table.empty, Table.get?] at hc,
      fun _ he => by simp [initial, Table.empty, Table.get?] at he⟩
  exact (Anew.blank blank).dates_of_run .refl h

-- Nothing is kept for a path that is steady from now on.
theorem Dates.strengthen {s₁ : Repository} (h : Dates s₁ n c ps path False s)
    (none : ∀ e, s.evaluators.get? n = some (.acl e) → e.decisions.contains path = false) :
    Dates s₁ n c ps path True s := by
  refine ⟨h.subscribed, h.entries, fun {m e} he hh hl hu =>
    ⟨fun p d hm => ?_, (h.answers he hh hl hu).reads⟩⟩
  rintro rfl _ rfl
  exact absurd hm (RecencyMap.not_mem_of_contains (none e he))

theorem Steady.dates (h : s.Steady n path) : Dates (.initial .initial) n c ps path True s := by
  obtain ⟨start, begun, none, run⟩ := h
  suffices Developed s ∧ Dates (.initial .initial) n c ps path True s from this.2
  induction run
  case refl       => exact ⟨begun, begun.dates.strengthen none⟩
  case tail hd hi => exact ⟨hi.1.tail hd.1, hi.2.develops hi.1.tended hi.1 hd.1 fun _ => hd.2⟩

-- However a repository is used while privileges are registered, evaluators that hear from an open
-- collector grant what ones would that are made now, but that the removal of a node may be granted
-- as it was when the path was governed by another node.
theorem grants_stay_current {e : AclEvaluator} {permissions : Permissions} {b : Bench}
    (h : Developed s) (he : s.evaluators.get? n = some (.acl e)) (isOpen : e.isClosed = false)
    (hears : s.Hears n e)
    (hp : permissions.meets Permissions.removeNode = false ∨ s.Steady n path)
    (hb : b.Fresh e.principals) : ((grants n path permissions).run.run s).1 =
      ((EvaluatorM.grants s.view s.registry path permissions).run.run b).1 := by
  rw [run_grants, answer_query he, EvaluatorM.grants_eq, EvaluatorM.run_map,
    ← EvaluatorM.grants_eq, hb.grants]
  rcases hp with hp | steady
  case inl => exact (h.dates.decision .refl h he isOpen hears).2 permissions (.inl hp)
  case inr => exact (steady.dates.decision .refl h he isOpen hears).2 permissions (.inr trivial)

-- Alice's evaluator goes on when there is a child, and when a privilege has been registered too.
def extended : Repository := grown.enrolled ⟨publish.name, false, []⟩

theorem developed_watched : Developed watched := ReflTransGen.mono (fun _ _ => .use) _ _ run_watched

theorem developed_extended : Developed extended :=
  developed_watched.tail (.use .grants) |>.tail (.use uses_drafted) |>.tail (.use (.save 0))
    |>.tail (.register _)

-- Nobody has asked about the parent, and it has stood at its path all the time.
theorem steady_extended : extended.Steady 0 "/a" := by
  have evaluator : (watched.evaluators.get? 0).all (Evaluator.isAclWith fun e =>
      !e.decisions.contains "/a") := by decide +kernel
  have lead : ∀ s ∈ [watched, asked, drafted, grown, extended],
      (governor s.view "/a").toOption = some (⟨⟨1⟩, "/a"⟩, false) := by decide +kernel
  simp only [toOption_eq_some_iff, List.forall_mem_cons] at lead
  obtain ⟨at_watched, at_asked, at_drafted, at_grown, at_extended, -⟩ := lead
  refine ⟨watched, developed_watched, fun e he => ?_, ?_⟩
  · rw [he, Option.all_some] at evaluator
    simpa [Evaluator.isAclWith] using evaluator
  · exact ReflTransGen.refl
      |>.tail ⟨.use .grants, at_watched.trans at_asked.symm⟩
      |>.tail ⟨.use uses_drafted, at_asked.trans at_drafted.symm⟩
      |>.tail ⟨.use (.save 0), at_drafted.trans at_grown.symm⟩
      |>.tail ⟨.register _, at_grown.trans at_extended.symm⟩

theorem hears_extended : ∃ e, extended.evaluators.get? 0 = some (.acl e) ∧ e.isClosed = false ∧
    extended.Hears 0 e ∧ e.principals = alice := by
  have ⟨_, _, e, he, isOpen, hears, principals⟩ := hears_grown
  have evaluators : extended.evaluators = grown.evaluators := by rw [extended, enrolled]
  have collectors : extended.collectors = grown.collectors := by rw [extended, enrolled]
  refine ⟨e, ?_, isOpen, ?_, principals⟩
  · exact (congrArg (·.get? 0) evaluators).trans he
  · rwa [Hears, collectors]

theorem reading_is_granted_as_now : Developed extended ∧
    ∃ e, extended.evaluators.get? 0 = some (.acl e) ∧ e.isClosed = false ∧ extended.Hears 0 e ∧
      (Permissions.read.meets Permissions.removeNode = false ∨ extended.Steady 0 "/a/b") ∧
      (Permissions.removeNode.meets Permissions.removeNode = false ∨ extended.Steady 0 "/a") ∧
      newcomer.Fresh e.principals ∧
      ((grants 0 "/a/b" .read).run.run extended).1 =
        ((EvaluatorM.grants extended.view extended.registry "/a/b" .read).run.run newcomer).1 ∧
      ((grants 0 "/a" .removeNode).run.run extended).1 =
        ((EvaluatorM.grants extended.view extended.registry "/a" .removeNode).run.run
          newcomer).1 := by
  have ⟨e, he, isOpen, hears, principals⟩ := hears_extended
  have other : Permissions.read.meets Permissions.removeNode = false := by decide
  have fresh : newcomer.Fresh e.principals := principals ▸ .detached
  exact ⟨developed_extended, e, he, isOpen, hears, .inl other, .inr steady_extended, fresh,
    grants_stay_current developed_extended he isOpen hears (.inl other) fresh,
    grants_stay_current developed_extended he isOpen hears (.inr steady_extended) fresh⟩

-- The removal of the child is still denied as it was when there was only its parent.
theorem removal_is_denied_as_before : Used grown ∧
    ∃ e, grown.evaluators.get? 0 = some (.acl e) ∧ e.isClosed = false ∧ grown.Hears 0 e ∧
      newcomer.Fresh e.principals ∧
      ((grants 0 "/a/b" .removeNode).run.run grown).1.toOption = some false ∧
      ((EvaluatorM.grants grown.view grown.registry "/a/b" .removeNode).run.run
        newcomer).1.toOption = some true := by
  obtain ⟨_, _, e, he, isOpen, hears, principals⟩ := hears_grown
  exact ⟨used_grown, e, he, isOpen, hears, principals ▸ .detached, by decide +kernel⟩

end PolicyTree.Repository
