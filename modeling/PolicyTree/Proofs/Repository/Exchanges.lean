import Mathlib.Tactic.Common
import PolicyTree.Access.Error
import PolicyTree.Principal

namespace PolicyTree

variable {α β : Type}

-- What was asked of a provider, and what the answer was. Evaluators that it has compiled may be
-- closed as well.
inductive Exchange where
  | init (answer : Except AccessError Unit)
  | close (answer : Except AccessError Unit)
  | editor (answer : Except AccessError Unit)
  | collector (answer : Except AccessError Nat)
  | compile (principals : PrincipalSet) (answer : Except AccessError Nat)
  | canAccessRoot (answer : Except AccessError Bool)
  | closeEvaluator (n : Nat)

-- The answer is that something is not ready.
def Unready (answer : Except AccessError α) : Prop :=
  ∃ cause, answer = .error (.notInitialized cause)

theorem unready_error {e : AccessError} :
    Unready (.error e : Except AccessError α) ↔ ∃ cause, e = .notInitialized cause :=
  exists_congr fun _ => ⟨Except.error.inj, congrArg _⟩

theorem unready_discard {answer : Except AccessError α} :
    Unready (discard answer) ↔ Unready answer := by
  cases answer
  case error e => exact unready_error.trans unready_error.symm
  case ok      => exact ⟨nofun, nofun⟩

-- In what follows, the latest of some exchanges comes first.

namespace Exchange

def initiates : Exchange → Bool
  | .init (.ok _) => true
  | _ => false

def closes : Exchange → Bool
  | .close _ => true
  | _ => false

-- The provider has been made ready, and nobody has closed it yet.
def Ready (log : List Exchange) : Prop := (∃ x ∈ log, x.initiates) ∧ ∀ x ∈ log, ¬x.closes

def compiled : List Exchange → List Nat
  | [] => []
  | .compile _ (.ok n) :: log => n :: compiled log
  | _ :: log => compiled log

-- Those of them that weigh entries and have not been closed since.
def heard (everyone : String) : List Exchange → List Nat
  | [] => []
  | .compile principals (.ok n) :: log =>
    if principals.isPrivileged || principals.isEveryone everyone then heard everyone log
    else n :: heard everyone log
  | .closeEvaluator n :: log => (heard everyone log).filter (· ≠ n)
  | _ :: log => heard everyone log

def Fits (earlier : List Exchange) : Exchange → Prop
  | .init answer =>
    (Ready earlier → answer = .error (.policy .alreadyInitialized)) ∧
    ((∃ x ∈ earlier, x.closes) → answer = .error (.notInitialized .providerClosed))
  | .editor answer => Unready answer ↔ ¬Ready earlier
  | .collector answer => Unready answer ↔ ¬Ready earlier
  | .compile _ answer => Unready answer ↔ ¬Ready earlier
  | .canAccessRoot answer => Unready answer ↔ ¬Ready earlier
  | .close _ | .closeEvaluator _ => True

variable {log : List Exchange} {x : Exchange} {n : Nat} {everyone : String}

instance : Decidable (Ready log) := by
  unfold Ready
  infer_instance

theorem mem_compiled_of_heard (h : n ∈ heard everyone log) : n ∈ compiled log := by
  fun_induction heard everyone log
  case case1 => exact h
  case case2 hi => exact List.mem_cons_of_mem _ (hi h)
  case case3 hi => exact List.mem_cons.2 ((List.mem_cons.1 h).imp_right hi)
  case case4 hi => exact hi (List.mem_filter.1 h).1
  case case5 other _ hi =>
    rw [compiled]
    · exact hi h
    · exact other

-- An exchange that there might as well not have been.
structure Passive (x : Exchange) : Prop where
  initiates : x.initiates = false
  closes    : x.closes = false
  compiled  : ∀ log, compiled (x :: log) = compiled log
  heard     : ∀ everyone log, heard everyone (x :: log) = heard everyone log
  keeps     : ∀ n, x ≠ .closeEvaluator n

theorem ready_cons (hi : x.initiates = false) (hc : x.closes = false) :
    Ready (x :: log) ↔ Ready log := by
  simp [Ready, hi, hc]

-- A provider that is made ready is made so only once.
theorem initiates_once (h : ∀ later x earlier, log = later ++ x :: earlier → x.Fits earlier) :
    log.countP (·.initiates) ≤ 1 := by
  induction log
  case nil => exact Nat.zero_le _
  case cons x log hi =>
    have first := h [] x log rfl
    have rest := hi fun later y earlier heq => h (x :: later) y earlier (by rw [heq]; rfl)
    cases hx : x.initiates
    case false => simpa [List.countP_cons, hx] using rest
    case true =>
      have none : log.countP (·.initiates) = 0 := by
        rw [List.countP_eq_zero]
        intro y hy initiated
        unfold Exchange.initiates at hx
        split at hx
        case h_2 => exact nomatch hx
        case h_1 =>
          by_cases closed : ∃ x ∈ log, x.closes
          · exact nomatch first.2 closed
          · exact nomatch first.1 ⟨⟨y, hy, initiated⟩, fun x hx hc => closed ⟨x, hx, hc⟩⟩
      simp [hx, none]

end Exchange

end PolicyTree
