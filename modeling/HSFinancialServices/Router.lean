import HSFinancialServices.Protocol
import Mathlib.Logic.Function.Basic

/-!
# The service router

Handlers share the state `σ` of the services. A handler either returns a payload or
throws an exception, of which `dispatch` only uses the text.
-/

namespace HSFinancialServices
open Ascii

variable {σ : Type*}

abbrev ServiceHandler (σ : Type*) := Bytes → σ → Except Bytes Bytes × σ

structure ServiceRouter (σ : Type*) where
  handlers : UInt16 → Option (ServiceHandler σ)

def ServiceRouter.empty : ServiceRouter σ := ⟨fun _ => none⟩

def ServiceRouter.registerHandler (router : ServiceRouter σ) (type : MessageType)
    (handler : ServiceHandler σ) : Except String (ServiceRouter σ) :=
  match router.handlers type with
  | some _ => .error "ServiceRouter: duplicate handler for message type"
  | none => .ok ⟨Function.update router.handlers type (some handler)⟩

def unknownMessageType : Bytes := ascii "\x7b\"code\":404,\"message\":\"Unknown message type\"\x7d"

/-- The exception text is not escaped. -/
def handlerFailure (what : Bytes) : Bytes :=
  ascii "\x7b\"code\":500,\"message\":\"" ++ what ++ ascii "\"\x7d"

theorem handlerFailure_length (what : Bytes) : (handlerFailure what).length = what.length + 25 := by
  have hstart : (ascii "\x7b\"code\":500,\"message\":\"").length = 23 := rfl
  have hend : (ascii "\"\x7d").length = 2 := rfl
  simp only [handlerFailure, List.length_append, hstart, hend]
  omega

def ServiceRouter.dispatch (router : ServiceRouter σ) (request : Message) (store : σ) :
    Message × σ :=
  match router.handlers request.header.messageType with
  | none => (Message.make MessageType.kError unknownMessageType 0, store)
  | some handler =>
    match handler request.payload store with
    | (.ok responsePayload, store') =>
      (Message.make (request.header.messageType ||| 0x8000) responsePayload 0, store')
    | (.error what, store') => (Message.make MessageType.kError (handlerFailure what) 0, store')

theorem ServiceRouter.dispatch_make (router : ServiceRouter σ) (request : Message) (store : σ) :
    ∃ type payload, (router.dispatch request store).1 = Message.make type payload 0 := by
  simp only [dispatch]
  split
  · exact ⟨_, _, rfl⟩
  · split
    · exact ⟨_, _, rfl⟩
    · exact ⟨_, _, rfl⟩

theorem ServiceRouter.dispatch_of_throws {router : ServiceRouter σ} {request : Message}
    {store store' : σ} {handler : ServiceHandler σ} {what : Bytes}
    (hentry : router.handlers request.header.messageType = some handler)
    (hthrow : handler request.payload store = (.error what, store')) :
    (router.dispatch request store).1 =
      Message.make MessageType.kError (handlerFailure what) 0 := by
  simp only [dispatch, hentry, hthrow]

structure Exchange where
  request : Message
  response : Message
  deriving DecidableEq, Repr

/-- What a list of requests gets, one after the other, from a store nobody else changes. -/
def ServiceRouter.serve (router : ServiceRouter σ) : List Message → σ → List Exchange × σ
  | [], store => ([], store)
  | r :: rs, store =>
    let (response, store') := router.dispatch r store
    let (exchanges, store'') := router.serve rs store'
    (⟨r, response⟩ :: exchanges, store'')

theorem ServiceRouter.serve_requests (router : ServiceRouter σ) (rs : List Message) (store : σ) :
    (router.serve rs store).1.map Exchange.request = rs := by
  induction rs generalizing store with
  | nil => rfl
  | cons r rs ih => simp only [serve, List.map_cons, ih]

end HSFinancialServices
