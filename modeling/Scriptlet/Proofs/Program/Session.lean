import Scriptlet.Program
import Scriptlet.Proofs.Eval.Confinement
/-!
# Programs that run one after another

A session starts with the names that every program starts with, and runs programs in the same frame.
The functions that its programs get hold of are not arbitrary: a provided function has the parameter
that its code looks for, and `push` was taken from an array first, however many values it was taken
from later. So the code of a provided function finds what it looks for, and a program has no way to
an internal fault (`Program.session_safe`).
-/
namespace Scriptlet

/-- Nothing that an evaluation may want to write to is in use elsewhere. -/
structure Settings.Unborrowed (settings : Settings) : Prop where
  sink : settings.sink ≠ .busy
  held : settings.held = none

/-- The faults that a provided function is meant to stop with. -/
def Builtin.mayFail : Builtin → Fault → Bool
  | puts, .output _ => true
  | assert, .raised .assertionFailed _ => true
  | _, _ => false

/-! ## Provided functions on the frame of a call -/

namespace Eval

variable {s : State} {frame : FrameRef} {f : Function}

theorem lookup_of_binding {name : String} {b : Binding}
    (h : (s.store.frame frame).bindings.get? name = some b) (p : Position) :
    lookup frame name p s = .value b.value s := by
  have hget : s.store.get? frame name = some b.value := by
    rw [Store.get?, Store.searchDepth, Store.getWithin, h]
  rw [lookup, bind_apply, store]
  simp only [hget]
  rfl

theorem coordinate_of_binding {name : String} {n : Int64} {mutable : Bool}
    (h : (s.store.frame frame).bindings.get? name = some ⟨.integer n, mutable⟩)
    (hn : 0 ≤ n.toInt) : coordinate frame name s = .value n.toInt.toNat s := by
  rw [coordinate, bind_apply, lookup_of_binding h]
  have hnat : Arithmetic.toNat? n = some n.toInt.toNat := by
    rw [Arithmetic.toNat?, if_pos hn]
  have hinteger : (liftM ((Value.integer n).toInteger .nowhere) : Eval Int64) s = .value n s := rfl
  dsimp only
  rw [bind_apply, hinteger]
  dsimp only
  rw [hnat]
  rfl

theorem callSite_of_isCallFrame (h : IsCallFrame f (s.store.frame frame)) :
    ∃ p, callSite frame s = .value p s := by
  obtain ⟨line, column, hline, hcolumn, hlineName, hcolumnName⟩ := h.coordinates
  refine ⟨⟨line.toInt.toNat, column.toInt.toNat⟩, ?_⟩
  rw [callSite, bind_apply, coordinate_of_binding hlineName hline]
  dsimp only
  rw [bind_apply, coordinate_of_binding hcolumnName hcolumn]
  rfl

theorem lookup_of_parameter (h : IsCallFrame f (s.store.frame frame)) {b : Builtin}
    (hparams : f.params = b.function.params) (p : Position) :
    ∃ v, lookup frame b.parameterName p s = .value v s := by
  have hparam : ⟨b.parameterName, false⟩ ∈ f.params := by
    rw [hparams]
    exact List.mem_singleton.2 rfl
  obtain ⟨binding, hbinding⟩ := Option.isSome_iff_exists.1 (h.parameter hparam)
  exact ⟨binding.value, lookup_of_binding hbinding p⟩

/-- On the frame of a call, a provided function fails only as it is meant to. -/
theorem mayFail_of_isCallFrame {settings : Settings} (hsettings : settings.Unborrowed)
    (h : IsCallFrame f (s.store.frame frame)) {b : Builtin}
    (hparams : f.params = b.function.params)
    (hpush : b = .push → ∃ ref, f.receivers.getLast? = some (.array ref)) {fault : Fault}
    {t : State} (hfault : b.run settings frame s = .failure fault t) : b.mayFail fault := by
  obtain ⟨p, hp⟩ := callSite_of_isCallFrame h
  obtain ⟨v, hv⟩ := lookup_of_parameter h hparams p
  rw [Builtin.run, bind_apply, hp] at hfault
  -- The place of the call and the parameter are found, so what is left is particular to `b`.
  cases b with
  | puts =>
    dsimp only at hfault
    rw [bind_apply, hv] at hfault
    cases hsink : settings.sink with
    | ready =>
      rw [hsink] at hfault
      cases hfault
    | closed reason =>
      rw [hsink] at hfault
      cases hfault
      rfl
    | busy => exact absurd hsink hsettings.sink
  | assert =>
    dsimp only at hfault
    rw [bind_apply, hv] at hfault
    dsimp only at hfault
    split at hfault
    · cases hfault
    · cases hfault
      rfl
  | push =>
    obtain ⟨ref, href⟩ := hpush rfl
    dsimp only at hfault
    rw [bind_apply, lookup_of_binding (h.receiver href)] at hfault
    dsimp only at hfault
    rw [bind_apply, hv] at hfault
    simp only [hsettings.held] at hfault
    cases hfault

end Eval

/-! ## Provided functions that a program can get hold of -/

/-- A provided function has the parameter that its code looks for, and `push` was taken from an
array first. -/
def Function.Provided (f : Function) : Prop :=
  ∀ b, f.code = .builtin b → f.params = b.function.params ∧
    (b = .push → ∃ ref, f.receivers.getLast? = some (.array ref))

theorem Builtin.function_provided {b : Builtin} (hb : b ≠ .push) : b.function.Provided := by
  intro b' hb'
  cases hb'
  exact ⟨rfl, fun h => absurd h hb⟩

theorem Function.Provided.method {f : Function} (h : f.Provided) (receiver : Value) :
    Function.Provided { f with receivers := receiver :: f.receivers } := by
  intro b hb
  obtain ⟨hparams, hpush⟩ := h b hb
  refine ⟨hparams, fun heq => ?_⟩
  obtain ⟨ref, href⟩ := hpush heq
  exact ⟨ref, by rw [List.getLast?_cons, href, Option.getD_some]⟩

/-- Every function is there, and those that the language provides are as their code wants them. -/
def Policy.provided : Policy where
  allows f := ∃ g, f = some g ∧ g.Provided
  closure params frame body := ⟨_, rfl, fun b hb => by cases hb⟩
  method f receiver h := by
    obtain ⟨g, hg, hprovided⟩ := h
    cases hg
    exact ⟨_, rfl, hprovided.method receiver⟩
  push ref := by
    refine ⟨_, rfl, fun b hb => ?_⟩
    cases hb
    exact ⟨rfl, fun _ => ⟨ref, rfl⟩⟩
  dangling h := by
    obtain ⟨g, hg, -⟩ := h
    cases hg

def Fault.IsInternal (fault : Fault) : Prop :=
  ∃ misuse, fault = .internal misuse

def Tolerance.external : Tolerance where
  faults fault := ¬ fault.IsInternal
  raised cause p h := by
    obtain ⟨misuse, h⟩ := h
    cases h

theorem Builtin.not_isInternal_of_mayFail {b : Builtin} {fault : Fault} (h : b.mayFail fault) :
    ¬ fault.IsInternal := by
  intro hinternal
  obtain ⟨misuse, rfl⟩ := hinternal
  cases b <;> cases h

namespace Eval

variable {settings : Settings} {misuse : Fault.Misuse}

/-- Reports a fault that a provided function is not meant to stop with as an internal one. -/
def reporting (misuse : Fault.Misuse) (code : Code) (m : Eval Value) : Eval Value := fun s =>
  match code, m s with
  | .builtin b, .failure fault t =>
    if b.mayFail fault then .failure fault t else .failure (.internal misuse) t
  | _, outcome => outcome

theorem reporting_cases (misuse : Fault.Misuse) (code : Code) (m : Eval Value) (s : State) :
    reporting misuse code m s = m s ∨
      ∃ b fault t, code = .builtin b ∧ m s = .failure fault t ∧ b.mayFail fault = false ∧
        reporting misuse code m s = .failure (.internal misuse) t := by
  cases code with
  | closure outer body =>
    left
    simp only [reporting]
  | builtin b =>
    cases hm : m s with
    | failure fault t =>
      cases hfault : b.mayFail fault with
      | true =>
        left
        simp only [reporting, hm, hfault, if_true]
      | false =>
        right
        refine ⟨b, fault, t, rfl, rfl, hfault, ?_⟩
        simp [reporting, hm, hfault]
    | _ =>
      left
      simp only [reporting, hm]

/-- With reports, provided functions stay in a region and never stop with an internal fault. -/
theorem reporting_within (hsettings : settings.Unborrowed) :
    BuiltinsWithin .provided .external fun b frame =>
      reporting misuse (.builtin b) (b.run settings frame) := by
  intro s R f b frame hcode hallows hframe hcall
  obtain ⟨g, hg, hprovided⟩ := hallows
  cases hg
  obtain ⟨hparams, hpush⟩ := hprovided b hcode
  have hfails : ∀ fault t, b.run settings frame s = .failure fault t → b.mayFail fault :=
    fun fault t hfault => mayFail_of_isCallFrame hsettings hcall hparams hpush hfault
  have hconfined := builtin_confined R hframe settings b
  rcases reporting_cases misuse (.builtin b) (b.run settings frame) s with
    hsame | ⟨b', fault, t, hb', hfault, hunmeant, -⟩
  · constructor
    · intro v t ht
      exact hconfined.value v t (hsame.symm.trans ht)
    · intro fault t ht
      have hfault := hsame.symm.trans ht
      exact ⟨Builtin.not_isInternal_of_mayFail (hfails fault t hfault),
        (hconfined.failure fault t hfault).2⟩
  · cases hb'
    rw [hfails fault t hfault] at hunmeant
    cases hunmeant

theorem evaluateWith_reporting_within (misuse : Fault.Misuse) (hsettings : settings.Unborrowed)
    (n : Nat) :
    StaysWithin .provided .external
      (evaluateWith (invokeWatched (reporting misuse) settings) n) := by
  apply evaluateWith_within
  intro evaluate hev
  exact invokeWatched_within (fun _ _ _ => rfl) (reporting_within hsettings) hev

theorem AgreeAt.reporting {d : Nat} {m m' : Eval Value}
    (h : AgreeAt Fault.IsInternal d m m') (code : Code) :
    AgreeAt Fault.IsInternal d (reporting misuse code m) m' := by
  intro s hs
  obtain ⟨hsame, hdepth⟩ := h s hs
  rcases reporting_cases misuse code m s with heq | ⟨b, fault, t, -, hfault, -, hreport⟩
  · rw [heq]
    exact ⟨hsame, hdepth⟩
  · rw [hfault] at hdepth
    rw [hreport]
    exact ⟨.inr ⟨_, t, ⟨misuse, rfl⟩, rfl⟩, hdepth⟩

/-- Reports make no difference to an evaluation that does not end with an internal fault. -/
theorem evaluateWith_reporting_agree (n d : Nat) (node : Node) (e : FrameRef) :
    AgreeAt Fault.IsInternal d
      (evaluateWith (invokeWatched (reporting misuse) settings) n node e)
      (evaluate settings n node e) := by
  rw [evaluate_eq_evaluateWith, ← invokeWatched_eq_invoke]
  apply evaluateWith_agree (fun _ => True) ?_ n d trivial
  intro evaluate evaluate' hev d _ f frame p
  apply invokeWatched_agree _ _ (Nat.le_refl _)
  · intro hlt
    exact absurd hlt (Nat.lt_irrefl _)
  · intro _
    exact (runCode_agree rfl rfl (hev (d + 1) trivial) f.code frame).reporting f.code

theorem evaluate_safe (s : State) (R : Region .provided s.store) (hsettings : settings.Unborrowed)
    (n : Nat) (node : Node) (e : FrameRef) (he : .frame e ∈ R) :
    (∀ misuse t, evaluate settings n node e s ≠ .failure (.internal misuse) t) ∧
    ∀ misuse, evaluateWith (invokeWatched (reporting misuse) settings) n node e s =
      evaluate settings n node e s := by
  have hreported : ∀ misuse misuse' t,
      evaluateWith (invokeWatched (reporting misuse) settings) n node e s ≠
        .failure (.internal misuse') t := by
    intro misuse misuse' t hfault
    have hconfined := evaluateWith_reporting_within misuse hsettings n s R node e he
    exact (hconfined.failure _ t hfault).1 ⟨misuse', rfl⟩
  have hsame : ∀ misuse, evaluateWith (invokeWatched (reporting misuse) settings) n node e s =
      evaluate settings n node e s := by
    intro misuse
    obtain ⟨hsame | ⟨fault, t, ⟨misuse', rfl⟩, hfault⟩, -⟩ :=
      evaluateWith_reporting_agree n s.depth node e s rfl
    · exact hsame
    · exact absurd hfault (hreported misuse misuse' t)
  refine ⟨fun misuse t hfault => ?_, hsame⟩
  exact hreported misuse misuse t ((hsame misuse).trans hfault)

end Eval

/-! ## Sessions -/

namespace Program

section Run

variable {settings : Settings} {steps : Nat} {path source : String} {frame : FrameRef}
  {s t : State}

theorem final?_run (h : (run settings steps path source frame s).final? = some t) :
    t = s ∨ ∃ program u, parse source = .ok program ∧
      (Eval.evaluate settings steps program frame (s.emit (.parsed path))).final? = some u ∧
      t.store = u.store := by
  rw [run] at h
  cases hparse : parse source with
  | error e =>
    rw [hparse] at h
    cases h
    exact .inl rfl
  | ok program =>
    rw [hparse] at h
    right
    refine ⟨program, ?_⟩
    cases hresult : Eval.evaluate settings steps program frame (s.emit (.parsed path)) with
    | value v u =>
      simp only [hresult] at h
      cases h
      exact ⟨u, rfl, rfl, rfl⟩
    | failure fault u =>
      simp only [hresult] at h
      cases h
      exact ⟨_, rfl, rfl, rfl⟩
    | timeout =>
      simp only [hresult] at h
      cases h

theorem run_eq_stopped {fault : Fault}
    (h : run settings steps path source frame s = .failure (.stopped fault) t) :
    ∃ program, parse source = .ok program ∧
      Eval.evaluate settings steps program frame (s.emit (.parsed path)) = .failure fault t := by
  rw [run] at h
  cases hparse : parse source with
  | error e =>
    rw [hparse] at h
    cases h
  | ok program =>
    rw [hparse] at h
    refine ⟨program, ?_⟩
    cases hresult : Eval.evaluate settings steps program frame (s.emit (.parsed path)) with
    | failure fault u =>
      simp only [hresult] at h
      cases h
      exact ⟨rfl, rfl⟩
    | _ =>
      simp only [hresult] at h
      cases h

end Run

/-- The states that programs lead to which run one after another in the frame of `start`, each with
settings of its own. A session goes on after a fault. -/
inductive Session : State → Prop
  | first : Session start.2
  | next {s t : State} (settings : Settings) (steps : Nat) (path source : String) : Session s →
      (run settings steps path source start.1 s).final? = some t → Session t

theorem exists_region_start : ∃ R : Region .provided start.2.store, .frame start.1 ∈ R := by
  let places : List Location := [.frame ⟨0⟩, .function ⟨0⟩, .function ⟨1⟩]
  have hclosed : ∀ l ∈ places, ∀ l' ∈ start.2.store.links l, l' ∈ places := by
    decide +kernel
  have hallowed : ∀ ref, .function ref ∈ places →
      Policy.provided.allows start.2.store.functions[ref.index]? := by
    intro ref href
    have href : ref = ⟨0⟩ ∨ ref = ⟨1⟩ := by
      simpa [places] using href
    rcases href with rfl | rfl
    · exact ⟨Builtin.puts.function, rfl, Builtin.function_provided (by decide)⟩
    · exact ⟨Builtin.assert.function, rfl, Builtin.function_provided (by decide)⟩
  exact ⟨⟨{ l | l ∈ places }, hclosed, hallowed⟩, List.mem_cons_self⟩

theorem Session.exists_region {s : State} (h : Session s) :
    ∃ R : Region .provided s.store, .frame start.1 ∈ R := by
  induction h with
  | first => exact exists_region_start
  | @next s t settings steps path source _ hrun ih =>
    obtain ⟨R, hroot⟩ := ih
    rcases final?_run hrun with rfl | ⟨program, u, -, hfinal, hstore⟩
    · exact ⟨R, hroot⟩
    · rw [hstore]
      have hconfined := Eval.evaluate_within .provided settings steps (s.emit (.parsed path)) R
        program start.1 hroot
      obtain ⟨R', hext⟩ := hconfined.exists_of_final hfinal
      exact ⟨R', hext.sub _ hroot⟩

/-- No program of a session gets to an internal fault, if nothing is in use elsewhere. That includes
the code of the functions that the language provides: to report what they are not meant to stop
with, which is all but a text that the output refuses and a failed assertion, as an internal fault
makes no difference to a run. -/
theorem session_safe (s : State) (hs : Session s) (settings : Settings)
    (hsettings : settings.Unborrowed) (steps : Nat) (path source : String) :
    (∀ misuse t, run settings steps path source start.1 s ≠
      .failure (.stopped (.internal misuse)) t) ∧
    ∀ program, parse source = .ok program → ∀ misuse,
      Eval.evaluateWith (Eval.invokeWatched (Eval.reporting misuse) settings) steps program start.1
          (s.emit (.parsed path)) =
        Eval.evaluate settings steps program start.1 (s.emit (.parsed path)) := by
  obtain ⟨R, hroot⟩ := hs.exists_region
  have hsafe := fun program => Eval.evaluate_safe (s.emit (.parsed path)) R hsettings steps program
    start.1 hroot
  refine ⟨fun misuse t hrun => ?_, fun program _ => (hsafe program).2⟩
  obtain ⟨program, -, hfault⟩ := run_eq_stopped hrun
  exact (hsafe program).1 misuse t hfault

/-- The function of an array becomes a property of an object, and another program takes it from
there. -/
theorem session_safe_keptPush :
    ∃ t, (run {} 30 "keep" "a = [1]; o = \x7bp: a.push\x7d" start.1 start.2).final? = some t ∧
      Session t ∧
      ((run {} 30 "use" "o.p(2)" start.1 t).final?.map fun u =>
        u.store.arrays.toList.map Array.toList) = some [[.integer 1, .integer 2]] ∧
      ∀ misuse u, run {} 30 "use" "o.p(2)" start.1 t ≠
        .failure (.stopped (.internal misuse)) u := by
  have hruns : ((run {} 30 "keep" "a = [1]; o = \x7bp: a.push\x7d" start.1 start.2).final?.bind
      fun t => (run {} 30 "use" "o.p(2)" start.1 t).final?.map fun u =>
        u.store.arrays.toList.map Array.toList) = some [[.integer 1, .integer 2]] := by
    decide +kernel
  obtain ⟨t, ht, hitems⟩ := Option.bind_eq_some_iff.1 hruns
  have hsession : Session t := .next {} 30 "keep" _ .first ht
  have hsettings : Settings.Unborrowed {} := ⟨by simp, rfl⟩
  exact ⟨t, ht, hsession, hitems, (session_safe t hsession {} hsettings 30 "use" "o.p(2)").1⟩

end Program
end Scriptlet
