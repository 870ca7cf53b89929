import Mathlib.Data.List.Basic

/-!
# Computations over a store

A handler reads and writes a state, and may stop with an error; what it has written before stays.
Where others write to the store meanwhile, it asks, and does something with the answer.

* `Attempt`   a computation that fails and keeps what it has written;
* `fail`, `read`, `alter`, `lift`   its steps;
* `Keeps`   an invariant that it keeps, and what holds of its result;
* `Keeps.bind`, `Keeps.attempt`   one step after another, and an item whose error is noted;
* `Logged`, `Logged.Under`   a computation that notes what it does, and what it guarantees of
    its notes as long as an assumption holds of them;
* `Dialogue`   a value, a failure, or a question and what is done with the answer;
* `Dialogue.run`   the outcome where every question is answered by the same store.
-/

namespace Base

def Attempt (ε σ α : Type) := σ → Except ε α × σ

namespace Attempt

variable {ε σ α β : Type}

instance : Monad (Attempt ε σ) where
  pure a := fun s => (.ok a, s)
  bind m f := fun s =>
    match m s with
    | (.ok a, s) => f a s
    | (.error e, s) => (.error e, s)

def fail (e : ε) : Attempt ε σ α := fun s => (.error e, s)

/-- what is read from the state -/
def read (f : σ → α) : Attempt ε σ α := fun s => (.ok (f s), s)

def alter (f : σ → σ) : Attempt ε σ Unit := fun s => (.ok (), f s)

def lift : Except ε α → Attempt ε σ α
  | .ok a => pure a
  | .error e => fail e

/-- one item of a loop: the errors are noted, and the loop goes on -/
def attempt (m : Attempt ε σ Unit) (note : ε → σ → σ) (s : σ) : σ :=
  match m s with
  | (.ok (), s) => s
  | (.error e, s) => note e s

theorem bind_of_ok {m : Attempt ε σ α} {f : α → Attempt ε σ β} {s s' : σ} {a : α}
    (h : m s = (.ok a, s')) : (m >>= f) s = f a s' := by
  simp only [bind, h]

theorem bind_of_error {m : Attempt ε σ α} {f : α → Attempt ε σ β} {s s' : σ} {e : ε}
    (h : m s = (.error e, s')) : (m >>= f) s = (.error e, s') := by
  simp only [bind, h]

theorem lift_ok (a : α) (s : σ) : (lift (.ok a) : Attempt ε σ α) s = (.ok a, s) := rfl

theorem lift_error (e : ε) (s : σ) : (lift (.error e) : Attempt ε σ α) s = (.error e, s) := rfl

/-! ## invariants -/

/-- the invariant stays, also on failure, and where a result comes it has the property -/
def Keeps (I : σ → Prop) (m : Attempt ε σ α) (Q : α → Prop) : Prop :=
  ∀ s, I s → I (m s).2 ∧ ∀ a, (m s).1 = .ok a → Q a

variable {I : σ → Prop} {m : Attempt ε σ α} {f : α → Attempt ε σ β} {P Q : α → Prop} {R : β → Prop}

theorem Keeps.pure {a : α} (h : Q a) : Keeps I (pure a : Attempt ε σ α) Q := by
  intro s hs
  refine ⟨hs, fun b hb => ?_⟩
  obtain rfl := Except.ok.inj hb
  exact h

theorem Keeps.fail {e : ε} : Keeps I (fail e : Attempt ε σ α) Q :=
  fun _ hs => ⟨hs, fun _ ha => (nomatch ha)⟩

theorem Keeps.read {g : σ → α} (h : ∀ s, I s → Q (g s)) : Keeps I (read g : Attempt ε σ α) Q := by
  intro s hs
  refine ⟨hs, fun a ha => ?_⟩
  obtain rfl := Except.ok.inj ha
  exact h s hs

theorem Keeps.alter {g : σ → σ} (h : ∀ s, I s → I (g s)) :
    Keeps I (alter g : Attempt ε σ Unit) fun _ => True :=
  fun s hs => ⟨h s hs, fun _ _ => trivial⟩

theorem Keeps.lift {x : Except ε α} (h : ∀ a, x = .ok a → Q a) :
    Keeps I (lift x : Attempt ε σ α) Q := by
  cases x with
  | ok a => exact Keeps.pure (h a rfl)
  | error e => exact Keeps.fail

theorem Keeps.bind (hm : Keeps I m P) (hf : ∀ a, P a → Keeps I (f a) R) : Keeps I (m >>= f) R := by
  intro s hs
  obtain ⟨hkept, hresult⟩ := hm s hs
  rcases hrun : m s with ⟨err | a, s'⟩
  · rw [hrun] at hkept
    rw [bind_of_error hrun]
    exact ⟨hkept, fun _ hb => (nomatch hb)⟩
  · rw [hrun] at hkept hresult
    rw [bind_of_ok hrun]
    exact hf a (hresult a rfl) s' hkept

theorem Keeps.attempt {m : Attempt ε σ Unit} {note : ε → σ → σ} (hm : Keeps I m fun _ => True)
    (hnote : ∀ e s, I s → I (note e s)) {s : σ} (hs : I s) : I (m.attempt note s) := by
  have hkept := (hm s hs).1
  rw [Attempt.attempt]
  rcases hrun : m s with ⟨_ | u, s'⟩
  · rw [hrun] at hkept
    exact hnote _ _ hkept
  · rw [hrun] at hkept
    exact hkept

end Attempt

end Base

/-! ## a log -/

namespace Base

structure Logged (ε ω α : Type) where
  log : List ω
  result : Except ε α

namespace Logged

variable {ε ω α β : Type}

instance : Monad (Logged ε ω) where
  pure a := ⟨[], .ok a⟩
  bind m f :=
    match m.result with
    | .ok a => ⟨m.log ++ (f a).log, (f a).result⟩
    | .error e => ⟨m.log, .error e⟩

def fail (e : ε) : Logged ε ω α := ⟨[], .error e⟩

def tell (x : ω) : Logged ε ω Unit := ⟨[x], .ok ()⟩

def lift (x : Except ε α) : Logged ε ω α := ⟨[], x⟩

theorem bind_of_ok {m : Logged ε ω α} {f : α → Logged ε ω β} {a : α} (h : m.result = .ok a) :
    m >>= f = ⟨m.log ++ (f a).log, (f a).result⟩ := by
  simp only [bind, h]

theorem bind_of_error {m : Logged ε ω α} {f : α → Logged ε ω β} {e : ε} (h : m.result = .error e) :
    m >>= f = ⟨m.log, .error e⟩ := by
  simp only [bind, h]

/-- where `A` holds of all notes, `G` does, and `Q` of the result -/
def Under (A G : ω → Prop) (m : Logged ε ω α) (Q : α → Prop) : Prop :=
  (∀ x ∈ m.log, A x) → (∀ x ∈ m.log, G x) ∧ ∀ a, m.result = .ok a → Q a

variable {A G : ω → Prop} {m : Logged ε ω α} {f : α → Logged ε ω β} {P Q : α → Prop} {R : β → Prop}

theorem Under.pure {a : α} (h : Q a) : Under A G (pure a : Logged ε ω α) Q := by
  refine fun _ => ⟨fun x hx => (nomatch hx), fun b hb => ?_⟩
  obtain rfl := Except.ok.inj hb
  exact h

theorem Under.fail {e : ε} : Under A G (fail e : Logged ε ω α) Q :=
  fun _ => ⟨fun _ hx => (nomatch hx), fun _ ha => (nomatch ha)⟩

theorem Under.lift {x : Except ε α} (h : ∀ a, x = .ok a → Q a) :
    Under A G (lift x : Logged ε ω α) Q :=
  fun _ => ⟨fun _ hx => (nomatch hx), h⟩

theorem Under.tell {x : ω} {Q : Unit → Prop} (hnote : A x → G x) (h : A x → Q ()) :
    Under A G (tell x : Logged ε ω Unit) Q := by
  intro hA
  have hx : A x := hA x (List.mem_singleton.mpr rfl)
  refine ⟨fun y hy => ?_, fun _ _ => h hx⟩
  obtain rfl := List.mem_singleton.mp hy
  exact hnote hx

theorem Under.bind (hm : Under A G m P) (hf : ∀ a, P a → Under A G (f a) R) :
    Under A G (m >>= f) R := by
  cases hrun : m.result with
  | error e =>
    rw [bind_of_error hrun]
    exact fun hA => ⟨(hm hA).1, fun _ hb => (nomatch hb)⟩
  | ok a =>
    rw [bind_of_ok hrun]
    intro hA
    obtain ⟨hleft, hresult⟩ := hm fun x hx => hA x (List.mem_append_left _ hx)
    obtain ⟨hright, hlast⟩ := hf a (hresult a hrun) fun x hx => hA x (List.mem_append_right _ hx)
    exact ⟨fun x hx => (List.mem_append.mp hx).elim (hleft x) (hright x), hlast⟩

end Logged

end Base

namespace Base

variable {σ δ δ' : Type}

inductive Dialogue (σ δ : Type) where
  | done (d : δ)
  | fail (reason : String)
  | ask (k : σ → Dialogue σ δ)

namespace Dialogue

/-- against one store -/
def run (s : σ) : Dialogue σ δ → Except String δ
  | .done d => .ok d
  | .fail reason => .error reason
  | .ask k => (k s).run s

/-- one question, and a dialogue that depends on the answer -/
def query {α : Type} (f : σ → α) (k : α → Dialogue σ δ) : Dialogue σ δ := .ask fun s => k (f s)

@[simp] theorem run_query {α : Type} (f : σ → α) (k : α → Dialogue σ δ) (s : σ) :
    (query f k).run s = (k (f s)).run s := rfl

@[simp] theorem run_done (d : δ) (s : σ) : (done d : Dialogue σ δ).run s = .ok d := rfl

end Dialogue

end Base
