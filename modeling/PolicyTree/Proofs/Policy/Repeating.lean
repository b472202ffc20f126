import PolicyTree.Proofs.Access.Isolation
import PolicyTree.Proofs.Combining

namespace PolicyTree

namespace Policy

variable {o : NodeHandle} {es : List Entry} {e : Entry} {counts : Entry → Bool} {isAllow : Bool}
  {b : Nat}

def firsts (es : List Entry) : List Entry :=
  (es.zipIdx.filter fun e => (es.take e.2).all (!·.same e.1)).map (·.1)

theorem firsts_concat : firsts (es ++ [e]) =
    firsts es ++ if es.all (!·.same e) then [e] else [] := by
  have before : (es.zipIdx.filter fun x => ((es ++ [e]).take x.2).all (!·.same x.1)) =
      es.zipIdx.filter fun x => (es.take x.2).all (!·.same x.1) := by
    refine List.filter_congr fun x hx => ?_
    have := (List.mem_zipIdx hx).2.1
    rw [List.take_append_of_le_length (by omega)]
  rw [firsts, List.zipIdx_append, List.filter_append, before, List.map_append, ← firsts]
  congr 1
  simp only [List.zipIdx_singleton, Nat.zero_add, List.filter_singleton, List.take_left]
  cases es.all (!·.same e) <;> rfl

-- What a list has is the same as something that came first.
theorem any_same_firsts : (firsts es).any (·.same e) = es.any (·.same e) := by
  induction es using List.reverseRecOn
  case nil => rfl
  case append_singleton es d hi =>
    rw [firsts_concat, List.any_append, hi, List.any_append]
    cases repeated : es.all (!·.same d)
    case true  => rfl
    case false =>
      -- An entry that is left out stands for one that is not.
      obtain ⟨a, ha, same⟩ : ∃ a ∈ es, a.same d := by simpa using repeated
      rw [Entry.same, decide_eq_true_eq] at same
      by_cases hd : d.content = e.content
      case neg => simp [Entry.same, hd]
      case pos =>
        have : es.any (·.same e) := List.any_eq_true.2 ⟨a, ha, by simp [Entry.same, same, hd]⟩
        simp [this]

theorem entries_foldl_add : (es.foldl add (empty o)).entries = firsts es := by
  induction es using List.reverseRecOn
  case nil => rfl
  case append_singleton es e hi =>
    have listed : (es.foldl add (empty o)).contains e = es.any (·.same e) := by
      rw [contains, hi, any_same_firsts]
    rw [List.foldl_concat, firsts_concat, add, listed]
    cases hl : es.any (·.same e)
    case true  =>
      have : es.all (!·.same e) = false := by simpa using hl
      simp [this, hi]
    case false =>
      have : es.all (!·.same e) = true := by simpa using hl
      simp [this, hi]

theorem pairwise_firsts : (firsts es).Pairwise (fun a b => ¬a.same b) := by
  have nodup : ((firsts es).map Entry.content).Nodup := by
    rw [← entries_foldl_add (o := ⟨⟨0⟩, "/"⟩), contents_foldl_add]
    exact nodup_eraseDups
  exact (List.pairwise_map.1 nodup).imp fun h => by simpa [Entry.same] using h

-- Entries of one node that are the same decide alike wherever they are weighed.
theorem alike_of_same {d e : Entry} (g : NodeId) (same : d.same e) (owner : d.owner = e.owner) :
    Entry.Alike g g d e where
  content := by simpa [Entry.same] using same
  place   := by rw [owner]
  isLocal := by rw [Entry.isLocal, Entry.isLocal, owner]

-- What decides is the first entry that counts, and that is not left out: any before it that is the
-- same would count as well.
theorem decider_firsts (own : ∀ e ∈ es, e.owner = o)
    (hc : ∀ d e : Entry, d.same e → d.owner = e.owner → counts d = counts e) :
    decider counts b (firsts es) = decider counts b es := by
  induction es using List.reverseRecOn
  case nil => rfl
  case append_singleton es e hi =>
    have owner : e.owner = o := own e (by simp)
    have before := hi fun d hd => own d (by simp [hd])
    simp only [decider] at before ⊢
    rw [firsts_concat, List.find?_append, List.find?_append, before]
    cases repeated : es.all (!·.same e)
    case true  => rfl
    case false =>
      obtain ⟨a, ha, same⟩ : ∃ a ∈ es, a.same e := by simpa using repeated
      have alike := alike_of_same ⟨0⟩ same ((own a (by simp [ha])).trans owner.symm)
      rw [if_neg Bool.false_ne_true, List.find?_nil, Option.or_none, List.find?_singleton]
      split
      case isFalse => rw [Option.or_none]
      case isTrue counted =>
        have : (es.find? fun d => counts d && b ∈ d.bits).isSome := by
          refine List.find?_isSome.2 ⟨a, ha, ?_⟩
          rw [hc a e same ((own a (by simp [ha])).trans owner.symm), alike.bits]
          exact counted
        rw [Option.or_of_isSome this]

theorem decided_firsts (own : ∀ e ∈ es, e.owner = o)
    (hc : ∀ d e : Entry, d.same e → d.owner = e.owner → counts d = counts e) :
    decided counts isAllow (firsts es) = decided counts isAllow es := by
  ext b
  rw [mem_decided, mem_decided, decider_firsts own hc]

end Policy

-- A policy that entries of its node are put into one after the other lists each of them once, where
-- it came first, and evaluated among any others it decides the same as the entries themselves.
theorem repeated_entries_decide_nothing (owner : NodeHandle) (es xs ys : List Entry) (i : Item)
    (own : ∀ e ∈ es, e.owner = owner) :
    let p := es.foldl Policy.add (.empty owner)
    p.entries.Pairwise (fun a b => ¬a.same b) ∧ p.entries = Policy.firsts es ∧
    evaluate (xs ++ p.entries ++ ys) i = evaluate (xs ++ es ++ ys) i := by
  intro p
  have kept : p.entries = Policy.firsts es := Policy.entries_foldl_add
  have item (isAllow : Bool) : decided i.atItem isAllow (Policy.firsts es) = _ :=
    Policy.decided_firsts own fun d e same owner =>
      (Policy.alike_of_same i.node same owner).covers i.path
  have parent (isAllow : Bool) : decided i.atParent isAllow (Policy.firsts es) = _ :=
    Policy.decided_firsts own fun d e same owner =>
      (Policy.alike_of_same i.node same owner).atParent i
  refine ⟨kept ▸ Policy.pairwise_firsts, kept, ?_⟩
  simp only [kept, evaluate_eq, settled, decided_append, item, parent]

-- The privileges to write by their one name and by those of its members are the same, so the second
-- of these entries is not listed again after the denial.
theorem writing_by_members_decides_nothing :
    let page : NodeHandle := ⟨⟨1⟩, "/page"⟩
    let below : Restrictions := .ofList [(Glob.restrictionName, Value.string "/*")]
    let members := Privilege.builtin.filter (·.name ∈ Privilege.writeMembers)
    let writing : Entry := ⟨"alice", [.write], true, below, page⟩
    let removing : Entry := ⟨"alice", [.concrete "jcr:removeNode" .removeNode], false, ∅, page⟩
    let again : Entry := { writing with privileges := members }
    let es := [writing, removing, again, removing]
    let above : Entry := ⟨"alice", [.write], true, ∅, ⟨⟨0⟩, "/"⟩⟩
    let i : Item := ⟨"/page/text", ⟨2⟩, false⟩
    (∀ e ∈ es, e.owner = page) ∧ writing ≠ again ∧
    (es.foldl Policy.add (.empty page)).entries = [writing, removing] ∧
    evaluate ([] ++ (es.foldl Policy.add (.empty page)).entries ++ [above]) i =
      evaluate ([] ++ es ++ [above]) i ∧
    (evaluate ([] ++ es ++ [above]) i).grants .removeNode := by
  intro page below members writing removing again es above i
  have own : ∀ e ∈ es, e.owner = page := by decide +kernel
  have ⟨_, kept, decides⟩ := repeated_entries_decide_nothing page es [] [above] i own
  exact ⟨own, by decide +kernel, kept.trans (by decide +kernel), decides, by decide +kernel⟩

end PolicyTree
