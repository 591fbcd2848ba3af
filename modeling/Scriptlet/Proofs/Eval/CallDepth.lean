import Mathlib.Data.List.Chain
import Scriptlet.Program
import Scriptlet.Proofs.Eval.Agreement
/-!
# The depth of calls

A state counts the calls under way, and a call is refused once their number has reached the limit.
Main statements: a higher limit changes nothing about an evaluation that a lower one did not stop
(`Eval.evaluate_eq_of_limit_le`), and the counter is exact, after an evaluation, at every moment of
it and in what a listener is told (`Eval.depth_counts_calls`).
-/
namespace Scriptlet

/-! ## Higher limits -/

namespace Fault

def IsDepthExceeded (fault : Fault) : Prop :=
  ∃ limit p, fault = .raised (.callDepthExceeded limit) p

end Fault

namespace Eval

variable {settings : Settings} {m m' : Nat}

theorem evaluate_agree_of_limit_le (hle : m ≤ m') (n : Nat) (node : Node) (e : FrameRef) (d : Nat) :
    AgreeAt Fault.IsDepthExceeded d (evaluate { settings with maxDepth := m } n node e)
      (evaluate { settings with maxDepth := m' } n node e) := by
  rw [evaluate_eq_evaluateWith, evaluate_eq_evaluateWith]
  apply evaluateWith_agree (fun _ => True) ?_ n d trivial
  intro evaluate evaluate' hev d _ f frame p
  apply invokeWatched_agree (fun _ m => m) (fun _ m => m) hle
  · intro _
    exact ⟨m, p, rfl⟩
  · intro _
    exact runCode_agree rfl rfl (hev (d + 1) trivial) f.code frame

/-- A higher limit changes nothing about an evaluation, or the run of a program, that the lower one
did not stop: within the same number of steps it ends with the same value or fault, and in the same
state with its store, its output and its events. -/
theorem evaluate_eq_of_limit_le (settings : Settings) (m m' : Nat) (hle : m ≤ m') (n : Nat)
    (s : State) :
    (∀ node e,
      (∀ limit p t, evaluate { settings with maxDepth := m } n node e s ≠
        .failure (.raised (.callDepthExceeded limit) p) t) →
      evaluate { settings with maxDepth := m' } n node e s =
        evaluate { settings with maxDepth := m } n node e s) ∧
    ∀ path source frame,
      (∀ limit p t, Program.run { settings with maxDepth := m } n path source frame s ≠
        .failure (.stopped (.raised (.callDepthExceeded limit) p)) t) →
      Program.run { settings with maxDepth := m' } n path source frame s =
        Program.run { settings with maxDepth := m } n path source frame s := by
  have hevaluate : ∀ node e s,
      (∀ limit p t, evaluate { settings with maxDepth := m } n node e s ≠
        .failure (.raised (.callDepthExceeded limit) p) t) →
      evaluate { settings with maxDepth := m' } n node e s =
        evaluate { settings with maxDepth := m } n node e s := by
    intro node e s hstop
    obtain ⟨hsame | ⟨fault, t, ⟨limit, p, rfl⟩, hfault⟩, -⟩ :=
      evaluate_agree_of_limit_le hle n node e s.depth s rfl
    · exact hsame.symm
    · exact absurd hfault (hstop limit p t)
  refine ⟨fun node e => hevaluate node e s, fun path source frame hstop => ?_⟩
  simp only [Program.run] at hstop ⊢
  cases hparse : Program.parse source with
  | error e => rfl
  | ok program =>
    rw [hparse] at hstop
    simp only at hstop ⊢
    rw [hevaluate program frame _ ?_]
    intro limit p t hfault
    rw [hfault] at hstop
    exact hstop limit p t rfl

def emptyFrame : State where
  store := { frames := #[{}] }

/-- A function that calls another one, which uses a name that is not there. -/
def nestedCalls : Node :=
  let call (body : NodeKind) : NodeKind :=
    .call ⟨.function [] ⟨body, .start⟩, .start⟩ [⟨.arguments [], .start⟩]
  ⟨call (call (.identifier "x")), .start⟩

def depthExceeded : Outcome Fault Value → Bool
  | .failure (.raised (.callDepthExceeded _) _) _ => true
  | _ => false

theorem evaluate_eq_of_limit_le_nestedCalls :
    depthExceeded (evaluate { maxDepth := 1 } 9 nestedCalls ⟨0⟩ emptyFrame) = true ∧
    depthExceeded (evaluate { maxDepth := 2 } 9 nestedCalls ⟨0⟩ emptyFrame) = false ∧
    (evaluate { maxDepth := 2 } 9 nestedCalls ⟨0⟩ emptyFrame).final?.isSome = true ∧
    evaluate { maxDepth := 7 } 9 nestedCalls ⟨0⟩ emptyFrame =
      evaluate { maxDepth := 2 } 9 nestedCalls ⟨0⟩ emptyFrame := by
  have hstop : depthExceeded (evaluate { maxDepth := 2 } 9 nestedCalls ⟨0⟩ emptyFrame) = false := by
    decide +kernel
  refine ⟨by decide +kernel, hstop, by decide +kernel, ?_⟩
  apply (evaluate_eq_of_limit_le {} 2 7 (by decide) 9 emptyFrame).1 nestedCalls ⟨0⟩
  intro limit p t hfault
  rw [hfault] at hstop
  cases hstop

end Eval

/-! ## The counter -/

def Event.depth? : Event → Option Nat
  | .invoked _ depth _ => some depth
  | _ => none

/-- The depths of calls that are made one after the other or inside one another while `d` others are
under way, in the order in which they start. -/
structure Staircase (d limit : Nat) (depths : List Nat) : Prop where
  first : ∀ k ∈ depths.head?, k = d + 1
  next : depths.IsChain fun k k' => k' ≤ k + 1
  bounds : ∀ k ∈ depths, d + 1 ≤ k ∧ k ≤ limit

namespace Staircase

variable {d limit : Nat} {depths depths' : List Nat}

theorem nil : Staircase d limit [] where
  first := by simp
  next := List.isChain_nil
  bounds := by simp

theorem append (h : Staircase d limit depths) (h' : Staircase d limit depths') :
    Staircase d limit (depths ++ depths') where
  first := by
    cases depths with
    | nil => exact h'.first
    | cons k depths => exact h.first
  next := by
    rw [List.isChain_append]
    refine ⟨h.next, h'.next, fun k hk k' hk' => ?_⟩
    have hlow := (h.bounds k (List.mem_of_getLast? hk)).1
    have hfirst := h'.first k' hk'
    omega
  bounds := by
    intro k hk
    rcases List.mem_append.1 hk with hk | hk
    · exact h.bounds k hk
    · exact h'.bounds k hk

theorem call (hlimit : d < limit) (h : Staircase (d + 1) limit depths) :
    Staircase d limit ((d + 1) :: depths) where
  first := by simp
  next := by
    rw [List.isChain_cons]
    refine ⟨fun k hk => ?_, h.next⟩
    have hfirst := h.first k hk
    omega
  bounds := by
    intro k hk
    rcases List.mem_cons.1 hk with rfl | hk
    · omega
    · have hbounds := h.bounds k hk
      omega

end Staircase

/-- From `s` to `t` the counter is back where it was, and the calls that the listener was told about
had the depths of a staircase. -/
structure CountsCalls (limit : Nat) (s t : State) : Prop where
  depth : t.depth = s.depth
  events : ∃ new, t.events.toList = s.events.toList ++ new ∧
    Staircase s.depth limit (new.filterMap Event.depth?)

namespace CountsCalls

variable {limit : Nat} {s t u : State}

theorem refl (s : State) : CountsCalls limit s s :=
  ⟨rfl, [], by simp, .nil⟩

theorem trans (hst : CountsCalls limit s t) (htu : CountsCalls limit t u) :
    CountsCalls limit s u := by
  obtain ⟨hdepth, new, hnew, hstairs⟩ := hst
  obtain ⟨hdepth', new', hnew', hstairs'⟩ := htu
  refine ⟨hdepth'.trans hdepth, new ++ new', ?_, ?_⟩
  · rw [hnew', hnew, List.append_assoc]
  · rw [List.filterMap_append]
    rw [hdepth] at hstairs'
    exact hstairs.append hstairs'

theorem leave {f : Function} {frame : FrameRef} {p : Position}
    (h : CountsCalls limit (s.entered f frame p) t) (hlimit : s.depth < limit) :
    CountsCalls limit s { t with depth := t.depth - 1 } := by
  obtain ⟨hdepth, new, hnew, hstairs⟩ := h
  simp only [State.entered] at hdepth hnew hstairs
  refine ⟨by simp [hdepth], .invoked f.params.length (s.depth + 1) p :: new, ?_, ?_⟩
  · rw [hnew, Array.toList_push, List.append_assoc]
    rfl
  · exact hstairs.call hlimit

end CountsCalls

theorem Change.countsCalls {limit : Nat} {e : FrameRef} {s t : State} (h : Change e s t) :
    CountsCalls limit s t := by
  refine ⟨h.depth_eq, ?_⟩
  cases h with
  | declare name v mutable p hnew =>
    exact ⟨[.declared name mutable p], Array.toList_push, .nil⟩
  | _ => exact ⟨[], by simp, .nil⟩

theorem Run.countsCalls {settings : Settings} {e : FrameRef} {s t : State}
    (h : Run settings e s t) : CountsCalls settings.maxDepth s t := by
  induction h with
  | done => exact .refl _
  | change hc _ ih => exact hc.countsCalls.trans ih
  | @call e s t u w ref values line column p _ hlimit _ _ hargs hbody hrest =>
    -- The frame of the call is added before the function is entered; nothing else changes then.
    have hframe : CountsCalls settings.maxDepth t { t with store := (t.store.addFrame
        (.ofCall (.function ref) (s.store.function ref).params values line column)).2 } :=
      (Change.addFrame (e := e) _ _ _ _ _).countsCalls
    have hcall := hbody.leave hlimit
    exact ((hargs.trans hframe).trans hcall).trans hrest

namespace Eval

variable {α : Type} {settings : Settings}

theorem invoke_countsCalls (n : Nat) (f : Function) (frame : FrameRef) (p : Position) (s t : State)
    (h : (invoke settings (evaluate settings n) f frame p s).final? = some t) :
    CountsCalls settings.maxDepth s t := by
  rcases invoke_run (evaluate_runs settings n) f frame p s t h with rfl | ⟨hlimit, u, hbody, rfl⟩
  · exact .refl _
  · exact hbody.countsCalls.leave hlimit

/-! ## The counter at every moment -/

/-- The computation, given up if it starts or ends in a state that is not as expected. -/
def guarded (expected : State → Bool) (m : Eval α) : Eval α := fun s =>
  if expected s && (m s).final?.all expected then m s else .timeout

def depthWithin (low high : Nat) (s : State) : Bool :=
  low ≤ s.depth && s.depth ≤ high

/-- Invokes a function as `invoke` does, but gives up if the state is not as expected just before
the counter is raised, just after that, just before it is lowered again or just after that. These
are all the values that the counter takes, since nothing else writes to it. -/
def invokeGuarded (expected : State → Bool) (settings : Settings)
    (evaluate : Node → FrameRef → Eval Value) (f : Function) (frame : FrameRef) (p : Position) :
    Eval Value :=
  guarded expected
    (invokeWatched (fun _ => guarded expected) settings evaluate f frame p)

theorem AgreeAt.guarded {low high d : Nat} {m m' : Eval α} (hd : low ≤ d ∧ d ≤ high)
    (h : AgreeAt (fun _ => False) d m m') :
    AgreeAt (fun _ => False) d (guarded (depthWithin low high) m) m' := by
  intro s hs
  obtain ⟨hsame, hdepth⟩ := h s hs
  have hwithin : ∀ t : State, t.depth = d → depthWithin low high t = true := by
    intro t ht
    simp [depthWithin, ht, hd]
  have hend : (m s).final?.all (depthWithin low high) = true := by
    cases hfinal : (m s).final? with
    | none => rfl
    | some t => exact hwithin t (hdepth t hfinal)
  have heq : Eval.guarded (depthWithin low high) m s = m s := by
    simp [Eval.guarded, hwithin s hs, hend]
  rw [heq]
  exact ⟨hsame, hdepth⟩

theorem invokeGuarded_agree {low d : Nat} (hd : low ≤ d ∧ d ≤ settings.maxDepth)
    {evaluate evaluate' : Node → FrameRef → Eval Value}
    (hev : ∀ d, low ≤ d ∧ d ≤ settings.maxDepth → ∀ node e,
      AgreeAt (fun _ => False) d (evaluate node e) (evaluate' node e))
    (f : Function) (frame : FrameRef) (p : Position) :
    AgreeAt (fun _ => False) d
      (invokeGuarded (depthWithin low settings.maxDepth) settings evaluate f frame p)
      (invoke settings evaluate' f frame p) := by
  apply AgreeAt.guarded hd
  rw [← invokeWatched_eq_invoke]
  apply invokeWatched_agree
  · exact Nat.le_refl _
  · intro hlt
    exact absurd hlt (Nat.lt_irrefl _)
  · intro hlimit
    have hd' : low ≤ d + 1 ∧ d + 1 ≤ settings.maxDepth := by omega
    exact (runCode_agree rfl rfl (hev (d + 1) hd') f.code frame).guarded hd'

theorem evaluateWith_invokeGuarded_agree {low d : Nat} (hd : low ≤ d ∧ d ≤ settings.maxDepth)
    (n : Nat) (node : Node) (e : FrameRef) :
    AgreeAt (fun _ => False) d
      (evaluateWith (invokeGuarded (depthWithin low settings.maxDepth) settings) n node e)
      (evaluate settings n node e) := by
  rw [evaluate_eq_evaluateWith]
  apply evaluateWith_agree (fun d => low ≤ d ∧ d ≤ settings.maxDepth) ?_ n d hd
  intro evaluate evaluate' hev d hd f frame p
  exact invokeGuarded_agree hd hev f frame p

theorem AgreeAt.eq {d : Nat} {m m' : Eval α} (h : AgreeAt (fun _ => False) d m m') {s : State}
    (hs : s.depth = d) : m s = m' s := by
  obtain ⟨hsame | ⟨_, _, hbad, _⟩, -⟩ := h s hs
  · exact hsame
  · exact hbad.elim

/-- The counter of calls under way is exact for every evaluation and every invocation that starts
within the limit. When it ends, with a value or a fault, the counter is back where it was. The
listener was told of calls whose depths start one above the counter, never skip one on the way up,
and stay above the counter and within the limit. And checking at every moment that the counter lies
between its first value and the limit, to give up if it does not, makes no difference. -/
theorem depth_counts_calls (settings : Settings) (n : Nat) (s : State)
    (hs : s.depth ≤ settings.maxDepth) :
    (∀ node e,
      (∀ t, (evaluate settings n node e s).final? = some t →
        CountsCalls settings.maxDepth s t) ∧
      evaluateWith (invokeGuarded (depthWithin s.depth settings.maxDepth) settings) n node e s =
        evaluate settings n node e s) ∧
    ∀ f frame p,
      (∀ t, (invoke settings (evaluate settings n) f frame p s).final? = some t →
        CountsCalls settings.maxDepth s t) ∧
      invokeGuarded (depthWithin s.depth settings.maxDepth) settings
          (evaluateWith (invokeGuarded (depthWithin s.depth settings.maxDepth) settings) n)
          f frame p s =
        invoke settings (evaluate settings n) f frame p s := by
  have hd : s.depth ≤ s.depth ∧ s.depth ≤ settings.maxDepth := ⟨Nat.le_refl _, hs⟩
  refine ⟨fun node e => ⟨fun t ht => ?_, ?_⟩, fun f frame p => ⟨fun t ht => ?_, ?_⟩⟩
  · exact (evaluate_runs settings n node e s t ht).countsCalls
  · exact (evaluateWith_invokeGuarded_agree hd n node e).eq rfl
  · exact invoke_countsCalls n f frame p s t ht
  · refine (invokeGuarded_agree hd ?_ f frame p).eq rfl
    intro d hd node e
    exact evaluateWith_invokeGuarded_agree hd n node e

/-- Two calls, one inside the other, and a fault in the inner one. -/
theorem depth_counts_calls_nestedCalls :
    emptyFrame.depth ≤ 2 ∧
    ∃ t, (evaluate { maxDepth := 2 } 9 nestedCalls ⟨0⟩ emptyFrame).final? = some t ∧
      t.events.toList.filterMap Event.depth? = [1, 2] ∧ CountsCalls 2 emptyFrame t := by
  have hdepths : ((evaluate { maxDepth := 2 } 9 nestedCalls ⟨0⟩ emptyFrame).final?.map
      fun t => t.events.toList.filterMap Event.depth?) = some [1, 2] := by
    decide +kernel
  obtain ⟨t, ht, hevents⟩ := Option.map_eq_some_iff.1 hdepths
  have hcounts := depth_counts_calls { maxDepth := 2 } 9 emptyFrame (by decide)
  exact ⟨by decide, t, ht, hevents, (hcounts.1 nestedCalls ⟨0⟩).1 t ht⟩

end Eval
end Scriptlet
