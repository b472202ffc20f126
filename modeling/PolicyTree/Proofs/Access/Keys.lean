import Mathlib.Data.List.Infix
import Mathlib.Tactic.Common
import PolicyTree.Collector

namespace PolicyTree

namespace PrincipalSet

def marked (name : String) : List Char :=
  Nat.toDigits 10 name.utf8ByteSize ++ ':' :: name.toList

theorem toList_signature {s : PrincipalSet} : s.signature.toList = s.names.flatMap marked := by
  have each : (fun name => (signatureOf name).toList) = marked := funext fun name => by
    simp [signatureOf, marked]
  rw [signature, String.toList_join, List.flatMap_map, each]

theorem colon_not_mem_toDigits {n : Nat} : ':' ∉ Nat.toDigits 10 n := fun h => by
  simpa using Nat.isDigit_of_mem_toDigits (by decide) (by decide) h

theorem append_colon_inj {d d' l l' : List Char} (hd : ':' ∉ d) (hd' : ':' ∉ d')
    (h : d ++ ':' :: l = d' ++ ':' :: l') : d = d' ∧ l = l' := by
  rcases List.append_eq_append_iff.1 h with ⟨m, rfl, hm⟩ | ⟨m, rfl, hm⟩ <;> cases m
  case inl.nil => simpa using hm
  case inr.nil => simpa [eq_comm] using hm
  case inl.cons => simp_all
  case inr.cons => simp_all

-- Of two names with something after them that come to the same text, the shorter begins the longer,
-- so they are the same if they are of the same size.
theorem name_eq_of_append_eq {a b : String} {l l' : List Char}
    (hs : a.utf8ByteSize = b.utf8ByteSize) (h : a.toList ++ l = b.toList ++ l') : a = b := by
  have eq_of_begins {a b : String} (hs : a.utf8ByteSize = b.utf8ByteSize)
      (hp : a.toList <+: b.toList) : a = b := by
    obtain ⟨rest, hr⟩ := hp
    have hb : b = a ++ String.ofList rest := by
      rw [← String.toList_inj, ← hr]
      simp
    have : (String.ofList rest).utf8ByteSize = 0 := by
      rw [hb, String.utf8ByteSize_append] at hs
      omega
    rw [hb, String.utf8ByteSize_eq_zero_iff.1 this, String.append_empty]
  rcases List.prefix_or_prefix_of_prefix (List.prefix_append a.toList l)
    (h ▸ List.prefix_append b.toList l') with hp | hp
  · exact eq_of_begins hs hp
  · exact (eq_of_begins hs.symm hp).symm

theorem marked_append_inj {a b : String} {l l' : List Char}
    (h : marked a ++ l = marked b ++ l') : a = b ∧ l = l' := by
  simp only [marked, List.append_assoc, List.cons_append] at h
  have ⟨hd, h⟩ := append_colon_inj colon_not_mem_toDigits colon_not_mem_toDigits h
  have hs := congrArg (Nat.ofDigitChars 10 · 0) hd
  simp only [Nat.ofDigitChars_ten_toDigits] at hs
  obtain rfl := name_eq_of_append_eq hs h
  exact ⟨rfl, List.append_cancel_left h⟩

theorem names_eq_of_signature_eq {s t : PrincipalSet} (h : s.signature = t.signature) :
    s.names = t.names := by
  have inj {l l' : List String} (h : l.flatMap marked = l'.flatMap marked) : l = l' := by
    induction l generalizing l'
    case nil =>
      cases l'
      case nil => rfl
      case cons => simp [marked] at h
    case cons a l hi =>
      cases l'
      case nil => simp [marked] at h
      case cons b l' =>
        simp only [List.flatMap_cons] at h
        have ⟨hab, hl⟩ := marked_append_inj h
        rw [hab, hi hl]
  exact inj (by rw [← toList_signature, ← toList_signature, h])

end PrincipalSet

theorem collect_congr {tree : TreeView} {r : Registry} {ps ps' : PrincipalSet} {node : NodeHandle}
    (h : ps.names = ps'.names) : collect tree r ps node = collect tree r ps' node := by
  have level (node : NodeHandle) :
      Collection.level tree r ps node = Collection.level tree r ps' node := by
    simp [Collection.level, PrincipalSet.contains, h]
  have levels (k : Nat) (node : NodeHandle) :
      Collection.levels.go tree r ps k node = Collection.levels.go tree r ps' k node := by
    induction k generalizing node
    case zero => rfl
    case succ k hi => simp only [Collection.levels.go, level, hi]
  simp only [collect, Collection.levels, levels, Collection.byPrincipal, h]

theorem EntryKey.of_congr {ps ps' : PrincipalSet} {node node' : NodeHandle}
    (h : ps.names = ps'.names) (hid : node.id = node'.id) : of ps node = of ps' node' := by
  simp [of, PrincipalSet.signature, h, hid]

theorem Collector.entries_congr {tree : TreeView} {r : Registry} {ps ps' : PrincipalSet}
    {node : NodeHandle} (h : ps.names = ps'.names) :
    entries tree r ps node = entries tree r ps' node := by
  simp only [entries, EntryKey.of_congr h rfl, collect_congr h]

-- What is kept for some principals is found for those of the same names and for no others, and it
-- is what would be collected for them.
theorem EntryKey.tells_names (ps ps' : PrincipalSet) (node node' : NodeHandle) :
    (of ps node = of ps' node' ↔ ps.names = ps'.names ∧ node.id = node'.id) ∧
    (ps.names = ps'.names → ∀ (tree : TreeView) (r : Registry) (place : NodeHandle),
      collect tree r ps place = collect tree r ps' place ∧
      Collector.entries tree r ps place = Collector.entries tree r ps' place) := by
  refine ⟨⟨fun h => ?_, fun ⟨h, hid⟩ => of_congr h hid⟩, fun h tree r place => ?_⟩
  · have ⟨hs, hid⟩ := EntryKey.mk.inj h
    exact ⟨PrincipalSet.names_eq_of_signature_eq hs, hid⟩
  · exact ⟨collect_congr h, Collector.entries_congr h⟩

-- A name may look like the lengths of others.
example : (PrincipalSet.ofList [.named "1:a", .named "b"]).signature ≠
    (PrincipalSet.ofList [.named "1", .named "1:ab"]).signature := by decide

end PolicyTree
