import HSFinancialServices.Router

/-!
# Registering handlers

A call inserts first and looks afterwards whether it inserted anything. A caller that catches
the exception goes on with the router as the call left it.
-/

namespace HSFinancialServices

variable {σ : Type*}

abbrev Registration (σ : Type*) := MessageType × ServiceHandler σ

namespace ServiceRouter

/-- `handlers_.emplace`: an entry under the key stays as it is. -/
def emplace (router : ServiceRouter σ) (call : Registration σ) : ServiceRouter σ × Bool :=
  match router.handlers call.1 with
  | some _ => (router, false)
  | none => (⟨Function.update router.handlers call.1 (some call.2)⟩, true)

/-- A call of `register_handler`: the router it leaves behind and the exception, if any. -/
def registerCall (router : ServiceRouter σ) (call : Registration σ) :
    ServiceRouter σ × Option String :=
  let (router, ok) := router.emplace call
  (router, if ok then none else some "ServiceRouter: duplicate handler for message type")

theorem registerCall_of_some {router : ServiceRouter σ} {call : Registration σ}
    {handler : ServiceHandler σ} (h : router.handlers call.1 = some handler) :
    router.registerCall call =
      (router, some "ServiceRouter: duplicate handler for message type") := by
  simp [registerCall, emplace, h]

theorem registerCall_of_none {router : ServiceRouter σ} {call : Registration σ}
    (h : router.handlers call.1 = none) : router.registerCall call =
      (⟨Function.update router.handlers call.1 (some call.2)⟩, none) := by
  simp [registerCall, emplace, h]

theorem registerHandler_eq (router : ServiceRouter σ) (call : Registration σ) :
    router.registerHandler call.1 call.2 =
      match registerCall router call with
      | (router', none) => .ok router'
      | (_, some what) => .error what := by
  cases h : router.handlers call.1 with
  | none => simp [registerHandler, registerCall_of_none h, h]
  | some handler => simp [registerHandler, registerCall_of_some h, h]

@[ext] theorem ext {router router' : ServiceRouter σ}
    (h : ∀ type, router.handlers type = router'.handlers type) : router = router' := by
  cases router
  cases router'
  congr
  funext type
  exact h type

end ServiceRouter

end HSFinancialServices
