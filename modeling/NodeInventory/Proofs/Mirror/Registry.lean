import Mathlib.Logic.Function.Basic
import NodeInventory.Proofs.Footprint

/-!
# The registry as a mirror of the records

What the registry knows of a node is its status and its resources. A call that succeeds changes what
is known of the node that it is about and of no other; a call that fails changes nothing. To a
question the registry answers truthfully whether it knows the node.

A registry mirrors a store of records if it knows of every name what the record of the name says
(`Record.standing`), and knows no names without a record.
-/

namespace NodeInventory

open Fleet

namespace Fleet

/-- What the registry knows of a node. -/
structure Standing where
  status : String
  resources : List Resource
deriving DecidableEq

/-- What a report tells of its node. -/
def NodeReport.standing (r : NodeReport) : Standing := ⟨r.status, r.resources⟩

/-- What is known of the node of a call after the call, if that was known before. -/
def Call.effect : Call → Option Standing → Option Standing
  | add r, _ | update r, _ => some r.standing
  | delete _, _ => none
  | heartbeat _, s => s

/-- Whether an answer to a call is that of a registry which did what it was called for. -/
def Call.Succeeds : Call → Result Response → Prop
  | heartbeat _, a => ∃ code, codeOf a = .ok code
  | _, a => done a = .ok ()

end Fleet

/-- What the registry should know of the node of a record. -/
def Record.standing (x : Record) : Standing := ⟨x.spec.status, resourcesOf x.spec⟩

/-- What the registry knows of every name. -/
abbrev Registry : Type := String → Option Standing

namespace Registry

variable {g g' : Registry} {call : Call} {failing : Prop} {n : String} {r : Request} {a : r.Answer}

/-- The registry after a call that succeeded. -/
def apply (g : Registry) (call : Call) : Registry :=
  Function.update g call.nodeName (call.effect (g call.nodeName))

/-- Whether what an answer says is true. -/
def Truthful (g : Registry) : Call → Result Response → Prop
  | .heartbeat node, a => codeOf a = .ok unknownNode ↔ g node.nodeName = none
  | _, _ => True

/-- The registry answers a request, and is as it is after that. Calls fail only if they may. -/
inductive Hears (failing : Prop) (g : Registry) : (r : Request) → r.Answer → Registry → Prop
  | applied {call : Call} {a : Result Response} (h : call.Succeeds a) (htrue : g.Truthful call a) :
    Hears failing g (.callFleet call) a (g.apply call)
  | failed {call : Call} {a : Result Response} (hfailing : failing) (h : ¬call.Succeeds a) :
    Hears failing g (.callFleet call) a g
  | other {r : Request} (hr : r.kind ≠ .callFleet) (a : r.Answer) : Hears failing g r a g

theorem apply_self (g : Registry) (call : Call) :
    g.apply call call.nodeName = call.effect (g call.nodeName) :=
  Function.update_self ..

theorem apply_of_ne (g : Registry) (h : n ≠ call.nodeName) : g.apply call n = g n :=
  Function.update_of_ne h ..

theorem apply_heartbeat (g : Registry) (node : NodeReference) : g.apply (.heartbeat node) = g :=
  Function.update_eq_self ..

theorem Hears.eq_of_ne (h : g.Hears failing r a g')
    (hr : ∀ call, r = .callFleet call → n ≠ call.nodeName) : g' n = g n := by
  cases h with
  | applied => exact g.apply_of_ne (hr _ rfl)
  | failed | other => rfl

theorem Hears.eq_of_kind (h : g.Hears failing r a g') (hr : r.kind ≠ .callFleet) : g' = g := by
  cases h with
  | applied | failed => exact absurd rfl hr
  | other => rfl

theorem Hears.of_call {a : Result Response} (h : g.Hears False (.callFleet call) a g') :
    call.Succeeds a ∧ g.Truthful call a ∧ g' = g.apply call := by
  cases h with
  | applied h htrue => exact ⟨h, htrue, rfl⟩
  | failed hfailing => exact hfailing.elim
  | other hr => exact absurd rfl hr

theorem exists_hears (failing : Prop) (g : Registry) (call : Call) :
    ∃ (a : Result Response) (g' : Registry), g.Hears failing (.callFleet call) a g' := by
  cases call with
  | add | update | delete => exact ⟨.ok { code := 200 }, _, .applied rfl trivial⟩
  | heartbeat node =>
    cases hknown : g node.nodeName with
    | none =>
      exact ⟨.ok { code := unknownNode }, _, .applied ⟨_, rfl⟩ ⟨fun _ ↦ hknown, fun _ ↦ rfl⟩⟩
    | some standing =>
      refine ⟨.ok { code := 200 }, _, .applied ⟨_, rfl⟩ ⟨fun h ↦ ?_, fun h ↦ ?_⟩⟩
      · exact absurd (Except.ok.inj h) (by decide)
      · rw [hknown] at h
        cases h

end Registry

end NodeInventory
