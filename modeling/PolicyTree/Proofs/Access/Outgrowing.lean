import PolicyTree.Proofs.Access.Asking
import PolicyTree.Proofs.Combining
import PolicyTree.Proofs.Privilege.Accounts

namespace PolicyTree

-- Where one work succeeds so does the other, and what comes of the two is as said.
def MatchedBy {α β ε : Type} (R : α → β → Prop) (x : Except ε α) (y : Except ε β) : Prop :=
  ∀ a, x = .ok a → ∃ b, y = .ok b ∧ R a b

namespace MatchedBy

variable {α α' β β' ε : Type} {R : α → β → Prop} {S : α' → β' → Prop} {x : Except ε α}
  {y : Except ε β} {a : α} {b : β}

theorem ok (h : R a b) : MatchedBy R (.ok a : Except ε α) (.ok b : Except ε β) :=
  fun _ ha => ⟨b, rfl, Except.ok.inj ha ▸ h⟩

theorem bind {f : α → Except ε α'} {g : β → Except ε β'} (h : MatchedBy R x y)
    (hf : ∀ {a b}, R a b → MatchedBy S (f a) (g b)) : MatchedBy S (x >>= f) (y >>= g) := by
  intro c hc
  obtain ⟨a, ha, hc⟩ := bind_eq_ok_iff.1 hc
  obtain ⟨b, hb, hr⟩ := h a ha
  obtain ⟨d, hd, hs⟩ := hf hr c hc
  exact ⟨d, bind_eq_ok_iff.2 ⟨b, hb, hd⟩, hs⟩

-- The two begin with the same work.
theorem after {f : α → Except ε α'} {g : α → Except ε β'} (hf : ∀ a, MatchedBy S (f a) (g a)) :
    MatchedBy S (x >>= f) (x >>= g) :=
  bind (R := Eq) (fun a ha => ⟨a, ha, rfl⟩) fun hab => hab ▸ hf _

theorem foldlM {γ : Type} {l : List γ} {f : α → γ → Except ε α} {g : β → γ → Except ε β}
    (hf : ∀ {a b} c, R a b → MatchedBy R (f a c) (g b c)) (h : R a b) :
    MatchedBy R (l.foldlM f a) (l.foldlM g b) := by
  induction l generalizing a b
  case nil         => exact ok h
  case cons c l hi => exact (hf c h).bind hi

theorem mapM {γ : Type} {l : List γ} {f : γ → Except ε α} {g : γ → Except ε β}
    (hf : ∀ c, MatchedBy R (f c) (g c)) :
    MatchedBy (List.Forall₂ R) (l.mapM f) (l.mapM g) := by
  induction l
  case nil         => exact ok .nil
  case cons c l hi =>
    rw [List.mapM_cons, List.mapM_cons]
    exact (hf c).bind fun first => hi.bind fun rest => ok (.cons first rest)

end MatchedBy

-- What permissions take of the privileges was there before anything is registered.

theorem meanings_needed_builtin :
    ∀ isPolicyItem, ∀ m ∈ meanings isPolicyItem, m.1 ⊆ PrivilegeBits.builtin := by
  decide

theorem permissionsFor_inter {A PA known : PrivilegeBits} {isAllow isPolicyItem : Bool}
    (hk : PrivilegeBits.builtin ⊆ known) :
    permissionsFor (A ∩ known) (PA ∩ known) isAllow isPolicyItem =
      permissionsFor A PA isAllow isPolicyItem := by
  have taken {needed : PrivilegeBits} (hn : needed ⊆ PrivilegeBits.builtin) (A : PrivilegeBits) :
      needed ⊆ A ∩ known ↔ needed ⊆ A := by
    have hn := FlagSet.subset_trans hn hk
    simp only [FlagSet.subset_iff, FlagSet.mem_inter] at *
    exact forall₂_congr fun b hb => and_iff_left (hn b hb)
  have removal : decidesRemoval (A ∩ known) (PA ∩ known) isAllow ↔ decidesRemoval A PA isAllow := by
    rw [decidesRemoval_iff, decidesRemoval_iff, taken (by decide), taken (by decide)]
  ext p
  rw [mem_permissionsFor, mem_permissionsFor, removal]
  refine or_congr_left (exists_congr fun m => and_congr_right fun hm => ?_)
  rw [taken (meanings_needed_builtin isPolicyItem m hm)]

-- Carrying less, or deciding less, than others that know more.

section

variable (known : PrivilegeBits)

structure Entry.Narrows (e e' : Entry) : Prop where
  principal    : e.principal = e'.principal
  bits         : e.bits = e'.bits ∩ known
  isAllow      : e.isAllow = e'.isAllow
  restrictions : e.restrictions = e'.restrictions
  owner        : e.owner = e'.owner

-- Whether an entry counts does not hang on what it carries.
def Entry.Indifferent (counts : Entry → Bool) : Prop :=
  ∀ e e' : Entry, e.principal = e'.principal → e.restrictions = e'.restrictions →
    e.owner = e'.owner → counts e = counts e'

-- Whichever entries count, `es` decide what `es'` do of what is known, and nothing of the rest.
def Narrows (es es' : List Entry) : Prop :=
  ∀ counts, Entry.Indifferent counts → ∀ isAllow,
    decided counts isAllow es = decided counts isAllow es' ∩ known

-- Both are policies of one node.
structure Policy.Narrows (o : NodeHandle) (p p' : Policy) : Prop where
  owned   : ∀ e ∈ p.entries, e.owner = o
  owned'  : ∀ e ∈ p'.entries, e.owner = o
  entries : PolicyTree.Narrows known p.entries p'.entries

end

variable {known : PrivilegeBits} {counts : Entry → Bool} {isAllow : Bool} {e e' : Entry}
  {es es' fs fs' : List Entry} {levels levels' : List (List Entry)} {p p' : Policy}
  {o : NodeHandle} {ps : PrincipalSet}

theorem Item.indifferent_atItem (i : Item) : Entry.Indifferent i.atItem := by
  intro e e' _ hr ho
  rw [atItem, atItem, Entry.covers, Entry.covers, Entry.glob, Entry.glob, hr, ho]

theorem Item.indifferent_atParent (i : Item) : Entry.Indifferent i.atParent := by
  intro e e' _ hr ho
  have covers : e.covers = e'.covers := by
    funext path
    rw [Entry.covers, Entry.covers, Entry.glob, Entry.glob, hr, ho]
  rw [atParent, atParent, Entry.isLocal, Entry.isLocal, covers, ho]

namespace Narrows

theorem nil : Narrows known [] [] := by
  intro counts _ isAllow
  ext b
  simp

theorem append (h : Narrows known es es') (hf : Narrows known fs fs') :
    Narrows known (es ++ fs) (es' ++ fs') := by
  intro counts hc isAllow
  rw [decided_append, decided_append, h counts hc, h counts hc, hf counts hc]
  ext b
  simp only [FlagSet.mem_union, FlagSet.mem_sdiff, FlagSet.mem_inter]
  tauto

theorem singleton (h : e.Narrows known e') : Narrows known [e] [e'] := by
  intro counts hc isAllow
  have same : counts e = counts e' := hc e e' h.principal h.restrictions h.owner
  rw [decided_singleton, decided_singleton, same, h.isAllow, h.bits]
  ext b
  split <;> simp

theorem filter {keep : Entry → Bool} (hk : Entry.Indifferent keep) (h : Narrows known es es') :
    Narrows known (es.filter keep) (es'.filter keep) := by
  intro counts hc isAllow
  rw [decided_filter, decided_filter]
  refine h _ (fun e e' hp hr ho => ?_) isAllow
  rw [hk e e' hp hr ho, hc e e' hp hr ho]

theorem flatMap {f : List Entry → List Entry}
    (hf : ∀ {es es'}, Narrows known es es' → Narrows known (f es) (f es'))
    (h : List.Forall₂ (Narrows known) levels levels') :
    Narrows known (levels.flatMap f) (levels'.flatMap f) := by
  induction h
  case nil         => exact nil
  case cons h _ hi => exact (hf h).append hi

theorem byPrincipal (h : List.Forall₂ (Narrows known) levels levels') :
    Narrows known (Collection.byPrincipal ps levels) (Collection.byPrincipal ps levels') := by
  unfold Collection.byPrincipal
  induction ps.names
  case nil => exact nil
  case cons name names hi =>
    refine append (flatMap (filter fun _ _ hp _ _ => ?_) h) hi
    rw [hp]

theorem allowPrivileges (h : Narrows known es es') (i : Item) :
    (evaluate es i).allowPrivileges = (evaluate es' i).allowPrivileges ∩ known := by
  rw [evaluate_eq, evaluate_eq]
  exact h i.atItem i.indifferent_atItem true

-- Of permissions they decide the same.
theorem allows (h : Narrows known es es') (hk : PrivilegeBits.builtin ⊆ known) (i : Item) :
    (evaluate es i).allows = (evaluate es' i).allows := by
  rw [evaluate_eq, evaluate_eq, settled, settled, h _ i.indifferent_atItem,
    h _ i.indifferent_atParent, permissionsFor_inter hk]

end Narrows

-- An entry that is listed already would decide nothing at the end.
theorem Policy.decided_add (hc : Entry.Indifferent counts)
    (hp : ∀ e' ∈ p.entries, e'.owner = e.owner) :
    decided counts isAllow (p.add e).entries = decided counts isAllow (p.entries ++ [e]) := by
  rw [add]
  split
  case isFalse => rfl
  case isTrue listed =>
    obtain ⟨e', hm, same⟩ := List.any_eq_true.1 listed
    have same : e'.content = e.content := of_decide_eq_true same
    have bits : e'.bits = e.bits := congrArg (·.2.1) same
    have counted : counts e' = counts e :=
      hc e' e (congrArg (·.1) same) (congrArg (·.2.2.2) same) (hp e' hm)
    rw [decided_concat]
    split
    case isFalse => rfl
    case isTrue he =>
      ext b
      rw [FlagSet.mem_union, FlagSet.mem_sdiff]
      constructor
      case mp  => exact .inl
      case mpr =>
        rintro (hb | ⟨hb, other⟩)
        case inl => exact hb
        case inr => exact mem_decided_of_not hm (counted.trans he.1) (bits ▸ hb) other

namespace Policy.Narrows

theorem empty : Policy.Narrows known o (.empty o) (.empty o) := ⟨nofun, nofun, .nil⟩

theorem add (h : p.Narrows known o p') (he : e.Narrows known e') (ho : e.owner = o) :
    (p.add e).Narrows known o (p'.add e') := by
  have ho' : e'.owner = o := he.owner ▸ ho
  have owned {p : Policy} {e : Entry} (hp : ∀ e ∈ p.entries, e.owner = o) (ho : e.owner = o) :
      ∀ e' ∈ (p.add e).entries, e'.owner = o := by
    intro e' hm
    unfold Policy.add at hm
    split at hm
    case isTrue  => exact hp e' hm
    case isFalse => exact (List.mem_append.1 hm).elim (hp e') fun hm => List.mem_singleton.1 hm ▸ ho
  refine ⟨owned h.owned ho, owned h.owned' ho', fun counts hc isAllow => ?_⟩
  rw [decided_add hc fun e hm => (h.owned e hm).trans ho.symm,
    decided_add hc fun e hm => (h.owned' e hm).trans ho'.symm]
  exact h.entries.append (.singleton he) counts hc isAllow

end Policy.Narrows

-- What is found out when more privileges are registered.

namespace Registry.Ledger

variable {customs later : List Privilege} {r r' : Registry} {name path : String}
  {tree : TreeView} {node : NodeHandle} {l l' : List Privilege}

-- A privilege that is known by its name, and the one that is known by the same name now.
structure Renewed (r r' : Registry) (p p' : Privilege) : Prop where
  before     : r.get p.name = .ok p
  now        : r'.get p'.name = .ok p'
  isAbstract : p.isAbstract = p'.isAbstract
  bits       : p.bits = p'.bits ∩ r.allBits

theorem Renewed.bitsOf (h : List.Forall₂ (Renewed r r') l l') :
    Privilege.bitsOf l = Privilege.bitsOf l' ∩ r.allBits := by
  ext b
  rw [FlagSet.mem_inter, Privilege.mem_bitsOf, Privilege.mem_bitsOf]
  induction h
  case nil => simp
  case cons h _ hi =>
    simp only [List.mem_cons, or_and_right, exists_or, exists_eq_left, h.bits,
      FlagSet.mem_inter, hi]

theorem Renewed.forall_mem (h : List.Forall₂ (Renewed r r') l l') :
    (∀ p ∈ l, r.get p.name = .ok p) ∧ (∀ p ∈ l', r'.get p.name = .ok p) ∧
      ((∀ p ∈ l, p.isAbstract = false) → ∀ p ∈ l', p.isAbstract = false) := by
  induction h
  case nil => simp
  case cons h _ hi => simp_all [h.before, h.now, h.isAbstract]

-- Entries that are made of them.
theorem Renewed.matched_make {principal : String} {restrictions : Restrictions}
    (hl : List.Forall₂ (Renewed r r') l l') :
    MatchedBy (fun e e' => e.Narrows r.allBits e' ∧ e.owner = o)
      (liftM (Entry.make principal l isAllow restrictions o) : Except AccessError Entry)
      (liftM (Entry.make principal l' isAllow restrictions o) : Except AccessError Entry) := by
  intro e he
  rw [liftM_entry_eq_ok_iff, Entry.make_eq_ok_iff] at he
  obtain ⟨hp, some, concrete, glob, rfl⟩ := he
  obtain ⟨before, now, abstract⟩ := forall_mem hl
  refine ⟨_, liftM_entry_eq_ok_iff.2 <|
    Entry.make_eq_ok_iff.2 ⟨hp, ?_, abstract concrete, glob, rfl⟩, ⟨rfl, ?_, rfl, rfl, rfl⟩, rfl⟩
  · rintro rfl
    exact some (List.forall₂_nil_right_iff.1 hl)
  · rw [Entry.bits, Entry.bits, Entry.bitsOf_normalized before, Entry.bitsOf_normalized now]
    exact bitsOf hl

variable (h : Ledger customs r) (h' : Ledger (customs ++ later) r')

include h

theorem get_name {p : Privilege} (hp : r.get name = .ok p) : r.get p.name = .ok p := by
  rw [get_eq_ok_iff] at hp ⊢
  rwa [(h.getElem?_iff.1 hp).2]

include h'

theorem allBits_subset : r.allBits ⊆ r'.allBits := by
  rw [h.allBits_eq, h'.allBits_eq, FlagSet.subset_iff]
  intro b hb
  obtain ⟨p, hp, hb⟩ := Privilege.mem_bits_allWith.1 hb
  refine Privilege.mem_bits_allWith.2 ⟨p, ?_, hb⟩
  rw [concretes, List.filter_append, ← List.append_assoc]
  exact List.mem_append_left _ hp

omit h' in
theorem builtin_subset : PrivilegeBits.builtin ⊆ r.allBits := by
  have builtin : PrivilegeBits.builtin = Privilege.bitsOf Privilege.builtin := by decide
  rw [h.allBits_eq, builtin, FlagSet.subset_iff]
  intro b hb
  obtain ⟨p, hp, hb⟩ := Privilege.mem_bitsOf.1 hb
  exact Privilege.mem_bits_allWith.2 ⟨p, List.mem_append_left _ hp, hb⟩

theorem matched_get : MatchedBy (Renewed r r') (r.get name) (r'.get name) := by
  intro p hp
  have before := h.get_name hp
  have known := get_eq_ok_iff.1 hp
  by_cases hn : name = Privilege.allName
  case pos =>
    -- The aggregate of all is the one privilege that may carry more by now.
    subst hn
    have hp' := get_eq_ok_iff.2 h'.all
    refine ⟨_, hp', before, h'.get_name hp', ?_, ?_⟩
    · rw [Option.some_inj.1 (known.symm.trans h.all)]
      rfl
    · rw [Option.some_inj.1 (known.symm.trans h.all), ← h'.allBits_eq, ← h.allBits_eq]
      ext b
      rw [FlagSet.mem_inter]
      exact ⟨fun hb => ⟨FlagSet.subset_iff.1 (allBits_subset h h') b hb, hb⟩, (·.2)⟩
  case neg =>
    obtain ⟨held, named⟩ := (h.others hn).1 known
    have hp' : r'.get name = .ok p := by
      refine get_eq_ok_iff.2 ((h'.others hn).2 ⟨?_, named⟩)
      rw [← List.cons_append, ← List.append_assoc]
      exact List.mem_append_left _ held
    refine ⟨p, hp', before, h'.get_name hp', rfl, ?_⟩
    ext b
    rw [FlagSet.mem_inter, h.allBits_eq]
    exact ⟨fun hb => ⟨hb, FlagSet.subset_iff.1 (h.bits_subset known) b hb⟩, (·.1)⟩

theorem matched_readEntry : MatchedBy (fun e e' => e.Narrows r.allBits e' ∧ e.owner = o)
    (Policy.readEntry tree r o node) (Policy.readEntry tree r' o node) :=
  .after fun _ => .after fun _ => (MatchedBy.mapM fun _ => matched_get h h').bind
    fun renewed => .after fun _ => .after fun _ => Renewed.matched_make renewed

theorem matched_load : MatchedBy (Option.Rel (Policy.Narrows r.allBits node))
    (Policy.load tree r node) (Policy.load tree r' node) := by
  refine .after fun policy => ?_
  cases policy
  case none => exact .ok .none
  case some policy =>
    refine .after fun _ => (MatchedBy.foldlM (fun child narrows => ?_) .empty).bind fun narrows =>
      .ok (.some narrows)
    refine .after fun isEntry => ?_
    cases isEntry
    case false => exact .ok narrows
    case true  =>
      exact (matched_readEntry h h').bind fun ⟨he, ho⟩ => .ok (narrows.add he ho)

theorem matched_collect : MatchedBy (Narrows r.allBits) (collect tree r ps node)
    (collect tree r' ps node) := by
  have go (k : Nat) (node : NodeHandle) : MatchedBy (List.Forall₂ (Narrows r.allBits))
      (Collection.levels.go tree r ps k node) (Collection.levels.go tree r' ps k node) := by
    induction k generalizing node
    case zero => exact .ok .nil
    case succ k hi =>
      refine MatchedBy.bind (R := Narrows r.allBits) ((matched_load h h').bind fun found => ?_)
        fun own => .after fun parent => ?_
      · cases found
        case none         => exact .ok .nil
        case some narrows => exact .ok (narrows.entries.filter fun _ _ hp _ _ => hp ▸ rfl)
      · cases parent
        case none   => exact .ok (.cons own .nil)
        case some _ => exact (hi _).bind fun above => .ok (.cons own above)
  exact (go _ _).bind fun levels => .ok (.byPrincipal levels)

-- Whatever could be decided can be decided still. The permissions are the same, and what it allowed
-- is what it allows now of the privileges that were known.
theorem matched_decideAfresh :
    MatchedBy
      (fun d d' => d.allowPrivileges = d'.allowPrivileges ∩ r.allBits ∧ d.allows = d'.allows)
      (decideAfresh tree r ps path) (decideAfresh tree r' ps path) :=
  .after fun _ => .after fun _ => (matched_collect h h').bind fun narrows =>
    .ok ⟨narrows.allowPrivileges _, narrows.allows h.builtin_subset _⟩

theorem nextBit_eq : r'.nextBit = r.nextBit + (concretes later).length := by
  rw [h.nextBit, h'.nextBit, concretes, concretes, concretes, List.filter_append,
    List.length_append, Nat.add_assoc]

-- Registrations that give out no bit change nothing of it.
theorem allBits_eq_of_nextBit (same : r.nextBit = r'.nextBit) : r.allBits = r'.allBits := by
  have none : concretes later = [] := by
    have next := nextBit_eq h h'
    exact List.length_eq_zero_iff.1 (by omega)
  have all : concretes (customs ++ later) = concretes customs := by
    rw [concretes, List.filter_append, ← concretes, ← concretes, none, List.append_nil]
  rw [h.allBits_eq, h'.allBits_eq, all]

omit h' in
-- No more is allowed than is known.
theorem allowPrivileges_known {d : Decision} (hd : decideAfresh tree r ps path = .ok d) :
    d.allowPrivileges ∩ r.allBits = d.allowPrivileges := by
  have again : Ledger (customs ++ []) r := by rwa [List.append_nil]
  obtain ⟨d', hd', known, _⟩ := matched_decideAfresh h again d hd
  obtain rfl := Except.ok.inj (hd.symm.trans hd')
  exact known.symm

end Registry.Ledger

end PolicyTree
