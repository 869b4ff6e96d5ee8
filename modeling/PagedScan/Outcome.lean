import PagedScan.Event

/-!
# Outcomes

What an operation on some state comes to: the answer, or the reason there is
none; the state it leaves, which may have changed either way; and the events
on the way.
-/

namespace PagedScan

/-- The outcome of an operation on a state of type `σ` that answers with an `α`
or fails with an `ε`. -/
structure Outcome (ε σ α : Type) where
  answer : Except ε α
  state : σ
  events : List Event

namespace Outcome

variable {ε σ α β : Type}

/-- The operation answered `a` and had nothing to report. -/
def ok (state : σ) (a : α) : Outcome ε σ α :=
  ⟨.ok a, state, []⟩

/-- The operation failed. -/
def fail (state : σ) (e : ε) : Outcome ε σ α :=
  ⟨.error e, state, []⟩

/-- The same outcome with events that came before it. -/
def after (events : List Event) (o : Outcome ε σ α) : Outcome ε σ α :=
  { o with events := events ++ o.events }

/-- Goes on from the answer and the state, unless the operation failed. -/
def andThen (o : Outcome ε σ α) (next : σ → α → Outcome ε σ β) : Outcome ε σ β :=
  match o.answer with
  | .error e => ⟨.error e, o.state, o.events⟩
  | .ok a => (next o.state a).after o.events

/-- Goes on from a value that was looked up in the state, if there was one. -/
def ofLookup (state : σ) (found : Except ε α) (next : α → Outcome ε σ β) :
    Outcome ε σ β :=
  match found with
  | .error e => .fail state e
  | .ok a => next a

/-- The operation answered, and reports an event if anyone listens. -/
def report (logging : Bool) (state : σ) (a : α) (event : Event) : Outcome ε σ α :=
  ⟨.ok a, state, if logging then [event] else []⟩

/-! ## What an outcome yields

Most of what there is to say about an operation is the answer it gives and the
state it leaves; the events come along. `Yields` says those two, and the rules
below follow an operation through its parts. -/

/-- The operation answered `a` and left the state `s`. -/
structure Yields (o : Outcome ε σ α) (s : σ) (a : α) : Prop where
  answer : o.answer = .ok a
  state : o.state = s

namespace Yields

variable {o : Outcome ε σ α} {s s' : σ} {a : α} {b : β}

theorem ok : (Outcome.ok s a : Outcome ε σ α).Yields s a :=
  ⟨rfl, rfl⟩

theorem report {logging : Bool} {event : Event} :
    (Outcome.report logging s a event : Outcome ε σ α).Yields s a :=
  ⟨rfl, rfl⟩

theorem after {events : List Event} (h : o.Yields s a) : (o.after events).Yields s a :=
  ⟨h.answer, h.state⟩

theorem andThen {next : σ → α → Outcome ε σ β} (h : o.Yields s a)
    (hnext : (next s a).Yields s' b) : (o.andThen next).Yields s' b := by
  obtain ⟨answer, state, events⟩ := o
  obtain ⟨rfl, rfl⟩ := h
  exact hnext.after

theorem of_andThen {next : σ → α → Outcome ε σ β} (h : (o.andThen next).Yields s' b) :
    ∃ s a, o.Yields s a ∧ (next s a).Yields s' b := by
  obtain ⟨answer, state, events⟩ := o
  cases answer with
  | error e => cases h.answer
  | ok a => exact ⟨state, a, ⟨rfl, rfl⟩, h.answer, h.state⟩

end Yields

end Outcome

end PagedScan
