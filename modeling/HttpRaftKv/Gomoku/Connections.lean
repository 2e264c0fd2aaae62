import HttpRaftKv.Gomoku.Handlers
import HttpRaftKv.Lib.Runs

/-!
# The connections of the users

Two maps connect users and connections.  An upgrade writes both, a close erases
from both, and no other handler touches them.  A close erases the connection of
the user without a look at which connection it is, so the maps agree exactly as
long as no connection is closed beside another one of the same user.
-/

namespace HttpRaftKv.Gomoku

namespace GomokuServer

/-! ## What the operations leave alone -/

theorem frame_createGameRoom (s : GomokuServer) (faults : Faults) (player1 player2 : ℤ) :
    s.Frame (s.createGameRoom faults player1 player2).2 := by
  unfold createGameRoom
  split
  · exact .refl s
  · simp only
    split_ifs
    · exact ⟨⟨rfl, rfl, rfl⟩, rfl⟩
    · split
      · exact ⟨⟨rfl, rfl, rfl⟩, rfl⟩
      · exact ⟨⟨rfl, rfl, rfl⟩, rfl⟩

theorem gameRelation_frame : GameRelation Frame where
  refl := .refl
  trans := .trans
  sendMessage := fun _ _ _ ↦ ⟨⟨rfl, rfl, rfl⟩, rfl⟩
  addToLobby := fun s userId conn _ ↦ s.frame_addToLobby userId conn
  removeGameRoom := fun _ _ ↦ ⟨⟨rfl, rfl, rfl⟩, rfl⟩
  loadGameRoom := fun s _ _ _ ↦ s.frame_keepRoom _ _
  moveGameRoom := fun s faults roomId playerId x y _ ↦
    s.frame_moveGameRoom faults roomId playerId x y
  finishGameRoom := fun s _ roomId _ _ ↦ (s.frame_values _).trans (frame_keepRoom _ roomId _)

end GomokuServer

namespace GameWsHandler

open GomokuServer

theorem startGame_frame (s : GomokuServer) (cs : Circumstances) (conn : Conn)
    (userId opponent : ℤ) : s.Frame (startGame s cs conn userId opponent) := by
  unfold startGame
  have h := s.frame_createGameRoom cs.faults userId opponent
  rcases hcreate : s.createGameRoom cs.faults userId opponent with ⟨roomId, s'⟩
  rw [hcreate] at h
  cases roomId with
  | none => exact h
  | some roomId =>
      simp only
      split_ifs
      · exact h.trans (gameRelation_frame.sendMessage s' _ _)
      · have hlobby : s'.Frame ((s'.removeFromLobby userId).removeFromLobby opponent) :=
          ⟨⟨rfl, rfl, rfl⟩, rfl⟩
        apply (h.trans hlobby).trans
        exact (gameRelation_frame.sendMessage _ _ _).trans
          (frame_sendIfConnected _ _ _)

/-! ## What the events do to the connections -/

theorem sameConnections_tryMatch (s : GomokuServer) (userId : ℤ) :
    s.SameConnections (s.tryMatch userId).2 := by
  unfold tryMatch
  split_ifs
  · exact ⟨rfl, rfl, rfl⟩
  · split
    · exact ⟨rfl, rfl, rfl⟩
    · exact ⟨rfl, rfl, rfl⟩

theorem handleMatchRequest_sameConnections (s : GomokuServer) (cs : Circumstances) (conn : Conn)
    (userId : ℤ) : s.SameConnections (handleMatchRequest s cs conn userId) := by
  unfold handleMatchRequest
  have htry := sameConnections_tryMatch s userId
  rcases htryMatch : s.tryMatch userId with ⟨result, s'⟩
  rw [htryMatch] at htry
  have hsend : ∀ message, s.SameConnections (s'.sendMessage conn message) :=
    fun message ↦ htry.trans ⟨rfl, rfl, rfl⟩
  simp only
  split_ifs
  · exact htry.trans (startGame_frame s' cs conn userId result).toSameConnections
  · exact hsend _
  · exact hsend _
  · exact htry

theorem handleMatchCancel_sameConnections (s : GomokuServer) (userId : ℤ) :
    s.SameConnections (handleMatchCancel s userId) := by
  have hleave : s.SameConnections (s.leaveQueue userId) := ⟨rfl, rfl, rfl⟩
  exact hleave.trans (frame_sendIfConnected _ _ _).toSameConnections

/-- What `onClose` does before it erases the connection. -/
theorem onClose_eq (s : GomokuServer) (cs : Circumstances) (conn : Conn) :
    ∃ s', s.SameConnections s' ∧ onClose s cs conn = s'.removeUserId conn := by
  unfold onClose
  simp only
  split_ifs
  · have hleave : s.SameConnections
        ((s.leaveQueue (s.getUserId conn)).removeFromLobby (s.getUserId conn)) := ⟨rfl, rfl, rfl⟩
    have hgame := disconnectGame_rel gameRelation_frame frame_addToLobby
      ((s.leaveQueue (s.getUserId conn)).removeFromLobby (s.getUserId conn)) cs (s.getUserId conn)
    exact ⟨_, hleave.trans hgame.toSameConnections, rfl⟩
  · exact ⟨s, ⟨rfl, rfl, rfl⟩, rfl⟩

theorem onClose_maps (s : GomokuServer) (cs : Circumstances) (conn : Conn) :
    (onClose s cs conn).connToUserId = (s.removeUserId conn).connToUserId ∧
      (onClose s cs conn).userIdToConnPtr = (s.removeUserId conn).userIdToConnPtr := by
  obtain ⟨s', hsame, heq⟩ := onClose_eq s cs conn
  rw [heq]
  unfold removeUserId
  rw [hsame.connToUserId, hsame.userIdToConnPtr]
  cases hconn : s.connToUserId conn with
  | none => exact ⟨hsame.connToUserId, hsame.userIdToConnPtr⟩
  | some userId => exact ⟨rfl, rfl⟩

/-! ## The maps -/

/-- The connection has been upgraded and has not been closed since. -/
def isOpen (conn : Conn) (events : List (Event × Circumstances)) : Bool :=
  Runs.run (fun opened event ↦
    match event.1 with
    | .upgrade c _ => if c = conn then true else opened
    | .close c => if c = conn then false else opened
    | _ => opened) false events

/-- The connection of a user is one that belongs to him, and a user with an open
connection can be reached over one. -/
def MapsAgree (events : List (Event × Circumstances)) (s : GomokuServer) : Prop :=
  (∀ userId conn, s.userIdToConnPtr userId = some conn → s.connToUserId conn = some userId) ∧
    ∀ userId, (∃ conn, isOpen conn events ∧ s.connToUserId conn = some userId) →
      ∃ conn, s.getConnectionByUserId userId = some conn ∧ isOpen conn events ∧
        s.connToUserId conn = some userId

/-- A connection is closed only if it is the only one of its user, and none is
upgraded again for another user while its old user is reached over it. -/
def ClosedAlone (s : GomokuServer) (event : Event × Circumstances) : Prop :=
  match event.1 with
  | .upgrade conn userId => ∀ other, s.connToUserId conn = some other → other ≠ userId →
      s.userIdToConnPtr other ≠ some conn
  | .close conn => ∀ userId other, s.connToUserId conn = some userId →
      s.connToUserId other = some userId → other = conn
  | _ => True

/-- The maps agree, where the open connections are those of the first map. -/
structure Agree (s : GomokuServer) : Prop where
  back : ∀ userId conn, s.userIdToConnPtr userId = some conn → s.connToUserId conn = some userId
  reached : ∀ userId conn, s.connToUserId conn = some userId → (s.userIdToConnPtr userId).isSome

theorem Agree.congr {s s' : GomokuServer} (hconn : s'.connToUserId = s.connToUserId)
    (huser : s'.userIdToConnPtr = s.userIdToConnPtr) : Agree s' ↔ Agree s := by
  constructor
  · rintro ⟨hback, hreached⟩
    rw [hconn, huser] at hback hreached
    exact ⟨hback, hreached⟩
  · rintro ⟨hback, hreached⟩
    rw [← hconn, ← huser] at hback hreached
    exact ⟨hback, hreached⟩

theorem Agree.of_same {s s' : GomokuServer} (h : Agree s) (hsame : s.SameConnections s') :
    Agree s' :=
  (Agree.congr hsame.connToUserId hsame.userIdToConnPtr).mpr h

theorem Agree.handle_iff {s : GomokuServer} (h : Agree s) (conn : Conn) (userId : ℤ) :
    Agree (handle s conn userId) ↔ ∀ other, s.connToUserId conn = some other → other ≠ userId →
      s.userIdToConnPtr other ≠ some conn := by
  constructor
  · rintro hagree other - hne hother
    have hback : (handle s conn userId).connToUserId conn = some other := by
      apply hagree.back
      simp [handle, setUserId, addToLobby, hne, hother]
    have hself : (handle s conn userId).connToUserId conn = some userId := by
      simp [handle, setUserId, addToLobby]
    rw [hself] at hback
    exact hne (Option.some.inj hback).symm
  · intro hother
    constructor
    · intro u c hc
      by_cases hu : u = userId
      · subst hu
        have hconn : conn = c := by simpa [handle, setUserId, addToLobby] using hc
        simp [handle, setUserId, addToLobby, hconn]
      · have hold : s.userIdToConnPtr u = some c := by
          simpa [handle, setUserId, addToLobby, hu] using hc
        have hne : c ≠ conn := by
          rintro rfl
          exact hother u (h.back u c hold) hu hold
        simpa [handle, setUserId, addToLobby, hne] using h.back u c hold
    · intro u c hc
      by_cases hu : u = userId
      · simp [handle, setUserId, addToLobby, hu]
      · have hne : c ≠ conn := by
          rintro rfl
          simp only [handle, setUserId, addToLobby, Function.update_self, Option.some.injEq] at hc
          exact hu hc.symm
        have hold : s.connToUserId c = some u := by
          simpa [handle, setUserId, addToLobby, hne] using hc
        simpa [handle, setUserId, addToLobby, hu] using h.reached u c hold

theorem Agree.removeUserId_iff {s : GomokuServer} (h : Agree s) (conn : Conn) :
    Agree (s.removeUserId conn) ↔ ∀ userId other, s.connToUserId conn = some userId →
      s.connToUserId other = some userId → other = conn := by
  unfold removeUserId
  cases hconn : s.connToUserId conn with
  | none => simp [h]
  | some userId =>
      simp only [Option.some.injEq]
      constructor
      · rintro hagree _ other rfl hother
        by_contra hne
        have hreached := hagree.reached userId other (by simp [hne, hother])
        simp at hreached
      · intro halone
        constructor
        · intro u c hc
          have hu : u ≠ userId := by
            rintro rfl
            simp at hc
          have hold : s.userIdToConnPtr u = some c := by simpa [hu] using hc
          have hne : c ≠ conn := by
            rintro rfl
            rw [h.back u c hold] at hconn
            exact hu (Option.some.inj hconn)
          simpa [hne] using h.back u c hold
        · intro u c hc
          have hne : c ≠ conn := by
            rintro rfl
            simp at hc
          have hold : s.connToUserId c = some u := by simpa [hne] using hc
          have hu : u ≠ userId := by
            rintro rfl
            exact hne (halone u c rfl hold)
          simpa [hu] using h.reached u c hold

/-- A step keeps the agreement exactly under the condition. -/
theorem Agree.step_iff {s : GomokuServer} (h : Agree s) (text : JsonText)
    (event : Event × Circumstances) : Agree (step text s event) ↔ ClosedAlone s event := by
  have hturn := turn_step text s event
  generalize step text s event = s' at hturn
  cases hturn with
  | upgrade conn userId cs => exact h.handle_iff conn userId
  | request conn message cs htype =>
      exact iff_of_true (h.of_same (handleMatchRequest_sameConnections s cs conn _)) trivial
  | cancel conn message cs htype =>
      exact iff_of_true (h.of_same (handleMatchCancel_sameConnections s _)) trivial
  | play conn message cs s' hrequest hcancel hplay =>
      exact iff_of_true (h.of_same (hplay _ gameRelation_frame).toSameConnections) trivial
  | close conn cs =>
      have hmaps := onClose_maps s cs conn
      rw [Agree.congr hmaps.1 hmaps.2]
      exact h.removeUserId_iff conn
  | network conn connected cs => exact iff_of_true ⟨h.back, h.reached⟩ trivial

/-! ## All runs -/

section Runs

variable (text : JsonText) (values : Values) (recovery : Faults)

/-- The connections of the first map are the open ones. -/
theorem isOpen_eq_isSome (events : List (Event × Circumstances)) (conn : Conn) :
    isOpen conn events =
      ((Runs.run (step text) (.create values recovery) events).connToUserId conn).isSome := by
  induction events using List.reverseRecOn with
  | nil => rfl
  | append_singleton events event ih =>
      unfold isOpen at ih ⊢
      rw [Runs.run_snoc, Runs.run_snoc, ih]
      generalize Runs.run (step text) (.create values recovery) events = s
      have hturn := turn_step text s event
      generalize step text s event = s' at hturn
      cases hturn with
      | upgrade c userId cs =>
          by_cases hc : c = conn
          · simp [handle, setUserId, addToLobby, hc]
          · simp [handle, setUserId, addToLobby, hc, Function.update_of_ne (Ne.symm hc)]
      | request c message cs htype =>
          rw [(handleMatchRequest_sameConnections s cs c _).connToUserId]
      | cancel c message cs htype => rw [(handleMatchCancel_sameConnections s _).connToUserId]
      | play c message cs s' hrequest hcancel hplay =>
          rw [(hplay _ gameRelation_frame).connToUserId]
      | close c cs =>
          rw [(onClose_maps s cs c).1]
          unfold removeUserId
          by_cases hc : c = conn
          · subst hc
            cases hconn : s.connToUserId c with
            | none => simp [hconn]
            | some userId => simp
          · cases hconn : s.connToUserId c with
            | none => simp [hc]
            | some userId => simp [hc, Function.update_of_ne (Ne.symm hc)]
      | network c connected cs => rfl

theorem mapsAgree_iff (events : List (Event × Circumstances)) :
    MapsAgree events (Runs.run (step text) (.create values recovery) events) ↔
      Agree (Runs.run (step text) (.create values recovery) events) := by
  have hopen := isOpen_eq_isSome text values recovery events
  generalize Runs.run (step text) (.create values recovery) events = s at hopen
  constructor
  · rintro ⟨hback, hreached⟩
    refine ⟨hback, fun userId conn hconn ↦ ?_⟩
    obtain ⟨c, hc, -⟩ := hreached userId ⟨conn, by simp [hopen, hconn], hconn⟩
    exact Option.isSome_of_mem hc
  · rintro ⟨hback, hreached⟩
    refine ⟨hback, ?_⟩
    rintro userId ⟨conn, -, hconn⟩
    obtain ⟨c, hc⟩ := Option.isSome_iff_exists.mp (hreached userId conn hconn)
    have huser := hback userId c hc
    exact ⟨c, hc, by simp [hopen, huser], huser⟩

/-- Over a run of upgrades, messages and closes of any users, the two maps agree
in every state exactly if no connection is closed beside another one of the same
user, and no connection is upgraded for a second user while it stands for the
first. -/
theorem maps_agree_iff_closed_alone (events : List (Event × Circumstances)) :
    (∀ past, past <+: events →
      MapsAgree past (Runs.run (step text) (.create values recovery) past)) ↔
      Runs.Along (step text) ClosedAlone (.create values recovery) events := by
  rw [← Runs.invariant_iff_along (P := fun _ s ↦ Agree s) (step text)]
  · exact forall₂_congr fun past _ ↦ mapsAgree_iff text values recovery past
  · exact ⟨by simp [GomokuServer.create], by simp [GomokuServer.create]⟩
  · exact fun past event h ↦ h.step_iff text event

end Runs

/-- A user opens a second tab and closes the first one. -/
def secondTab (cs : Circumstances) : List (Event × Circumstances) :=
  [(.upgrade "tab1" 7, cs), (.upgrade "tab2" 7, cs), (.close "tab1", cs)]

/-- The second tab is open, and the user cannot be reached. -/
theorem user_is_lost_with_secondTab :
    ¬ ∀ past, past <+: secondTab ⟨0, .none, .none, 0⟩ → MapsAgree past
      (Runs.run (step .compact) (.create .empty .none) past) := by
  intro h
  obtain ⟨conn, hconn, -⟩ := (h _ List.prefix_rfl).2 7 ⟨"tab2", by decide, by decide⟩
  have hnone : (Runs.run (step .compact) (.create .empty .none)
      (secondTab ⟨0, .none, .none, 0⟩)).getConnectionByUserId 7 = none := by decide
  rw [hnone] at hconn
  exact absurd hconn (by simp)

end GameWsHandler

end HttpRaftKv.Gomoku
