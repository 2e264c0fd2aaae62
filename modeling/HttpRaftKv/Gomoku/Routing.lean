import HttpRaftKv.Gomoku.HttpHandlers
import HttpRaftKv.Http.Router

/-!
# The routes of the game server

The server registers its routes when it starts.  No path is registered twice for a method
and a kind, so the router answers as the two tables of routes say.
-/

namespace HttpRaftKv.Gomoku

open Http

/-- The calls of `initializeRouter`, in their order. -/
def GomokuServer.initializeRouter : List (Registration Route) :=
  [.registerHandler .get (ascii "/") .entry,
    .registerHandler .get (ascii "/entry") .entry,
    .registerHandler .post (ascii "/login") .login,
    .registerHandler .post (ascii "/register") .register,
    .registerHandler .post (ascii "/user/logout") .logout,
    .registerHandler .get (ascii "/menu") .menu,
    .registerHandler .get (ascii "/aiBot/start") .aiBotStart,
    .registerHandler .post (ascii "/aiBot/move") .aiBotMove,
    .registerCallback .get (ascii "/aiBot/restart") .aiBotRestart,
    .registerHandler .get (ascii "/backend") .backend,
    .registerCallback .get (ascii "/backend_data") .backendData,
    .registerCallback .get (ascii "/api/test") .apiTest,
    .registerHandler .get (ascii "/ws") .ws,
    .registerCallback .get (ascii "/pvp") .pvp]

/-- If no key stands twice in a table, the order of its entries does not matter. -/
theorem lookup_reverse {κ α : Type} [BEq κ] [LawfulBEq κ] {entries : List (κ × α)}
    (h : (entries.map Prod.fst).Nodup) (key : κ) :
    entries.reverse.lookup key = entries.lookup key := by
  induction entries with
  | nil => rfl
  | cons entry entries ih =>
      obtain ⟨k, value⟩ := entry
      rw [List.map_cons, List.nodup_cons] at h
      rw [List.reverse_cons, List.lookup_append, ih h.2, List.lookup_cons]
      cases hkey : key == k with
      | true =>
          have hnone : entries.lookup key = none := by
            rw [List.lookup_eq_none_iff]
            intro entry hentry
            rw [bne_iff_ne]
            intro heq
            have hmem : entry.1 ∈ entries.map Prod.fst := List.mem_map_of_mem hentry
            rw [← heq, eq_of_beq hkey] at hmem
            exact h.1 hmem
          rw [hnone, Option.none_or, List.lookup_cons, hkey]
      | false =>
          rw [List.lookup_cons, hkey, List.lookup_nil, Option.or_none]

/-- The tables of static routes have nothing to do with regular expressions. -/
theorem build_static (library library' : RegexLibrary) {H : Type} (regs : List (Registration H)) :
    (Router.build library regs).handlers = (Router.build library' regs).handlers ∧
      (Router.build library regs).callbacks = (Router.build library' regs).callbacks := by
  induction regs using List.reverseRecOn with
  | nil => exact ⟨rfl, rfl⟩
  | append_singleton regs reg ih =>
      obtain ⟨hhandlers, hcallbacks⟩ := ih
      unfold Router.build at hhandlers hcallbacks ⊢
      rw [List.foldl_append, List.foldl_append, List.foldl_cons, List.foldl_nil, List.foldl_cons,
        List.foldl_nil]
      cases reg with
      | registerHandler method path handler =>
          exact ⟨congrArg (Router.assign · (method, path) handler) hhandlers, hcallbacks⟩
      | registerCallback method path callback =>
          exact ⟨hhandlers, congrArg (Router.assign · (method, path) callback) hcallbacks⟩
      | addRegexHandler method path handler =>
          rw [Router.register, Router.register]
          split <;> split <;> exact ⟨hhandlers, hcallbacks⟩
      | addRegexCallback method path callback =>
          rw [Router.register, Router.register]
          split <;> split <;> exact ⟨hhandlers, hcallbacks⟩

theorem handlers_initializeRouter (library : RegexLibrary) :
    (Router.build library GomokuServer.initializeRouter).handlers = Route.handlers.reverse := by
  rw [(build_static library .ofPieces _).1]
  decide +kernel

theorem callbacks_initializeRouter (library : RegexLibrary) :
    (Router.build library GomokuServer.initializeRouter).callbacks = Route.callbacks.reverse := by
  rw [(build_static library .ofPieces _).2]
  decide +kernel

/-- The router of the server chooses as the tables of routes say, and changes no request. -/
theorem route_initializeRouter (library : RegexLibrary) (r : HttpRequest) :
    Router.route library (Router.build library GomokuServer.initializeRouter) r =
      (Route.route r).map (·, .ofRequest r) := by
  have hhandlers : (Route.handlers.map Prod.fst).Nodup := by decide +kernel
  have hcallbacks : (Route.callbacks.map Prod.fst).Nodup := by decide +kernel
  unfold Router.route Route.route
  rw [handlers_initializeRouter, callbacks_initializeRouter, lookup_reverse hhandlers,
    lookup_reverse hcallbacks]
  cases Route.handlers.lookup (r.method, r.path) with
  | some route => rfl
  | none =>
      cases Route.callbacks.lookup (r.method, r.path) with
      | some route => rfl
      | none => rfl

end HttpRaftKv.Gomoku
