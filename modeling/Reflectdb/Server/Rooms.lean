import Reflectdb.Lib.Pattern
import Reflectdb.Lib.Text
import Mathlib.Logic.Function.Basic

/-!
# Rooms — the room key of a subscription and the callback that guards it

`resolveRoomKey` writes the client's params into a room's pattern.  `handleSyncDeclare` then has
only the key: it looks for a room whose regex matches it, and asks that room's callback about the
params that the regex captured.  The callback is the right one when the text reads back.
-/

namespace Reflectdb
namespace Server

open Lib Pattern

/-! ## Patterns -/

def slash : UInt16 := 47

def colon : UInt16 := 58

/-- `\w`. -/
def isWord (c : UInt16) : Bool :=
  (48 ≤ c ∧ c ≤ 57) ∨ (65 ≤ c ∧ c ≤ 90) ∨ c = 95 ∨ (97 ≤ c ∧ c ≤ 122)

abbrev RoomPiece : Type :=
  Piece UInt16 Text

/-- The pieces of the rest of a pattern, behind the word that it starts with. -/
def scanPattern : Text → Text × List RoomPiece
  | [] => ([], [])
  | c :: s =>
    match scanPattern s with
    | (word, ps) =>
      if isWord c then (c :: word, ps)
      else if c = colon ∧ word ≠ [] then ([], .param word :: ps)
      else ([], .lit c :: (word.map .lit ++ ps))

/-- `/:(\w+)/g` over a pattern: a param for each match, and literals between them. -/
def patternPieces (pattern : Text) : List RoomPiece :=
  (scanPattern pattern).1.map .lit ++ (scanPattern pattern).2

/-- `String(params[name])`, or `none` where the param is undefined or null. -/
abbrev SubscriptionParams : Type :=
  Text → Option Text

structure RoomContext (A : Type) where
  params : Text → Option Text
  auth : A

inductive RoomVerdict
  | allowed
  | denied (reason : Option Text)
  | throws

structure RoomRegistration (A : Type) where
  pattern : Text
  callback : RoomContext A → RoomVerdict

variable {A : Type}

/-- The pieces that `buildRoomRegex` compiles. -/
def RoomRegistration.pieces (room : RoomRegistration A) : List RoomPiece :=
  patternPieces room.pattern

def RoomRegistration.paramNames (room : RoomRegistration A) : List Text :=
  names room.pieces

/-- `pattern.replace(/:(\w+)/g, …)`. -/
def RoomRegistration.roomKey (room : RoomRegistration A) (params : SubscriptionParams) : Text :=
  substitute (fun name => (params name).getD []) room.pieces

/-- `regex.exec`. -/
def RoomRegistration.exec (room : RoomRegistration A) (key : Text) : Option (List Text) :=
  Pattern.exec slash room.pieces key

/-! ## Resolving -/

/-- Why a subscription names no room. -/
inductive RoomReason
  | notRegistered (required : Text)
  | missingParams (pattern : Text) (missing : List Text)
  | invalidKey (pattern : Text)
  | notResolved (required : Text)

/-- The key, with the room that it was made from. -/
inductive RoomResolution (A : Type)
  | ok (resolved : Option (RoomRegistration A × Text))
  | failed (reason : RoomReason)

/-- The loop over the rooms. -/
def resolveIn (params : SubscriptionParams) (requiredPattern : Option Text) :
    List (RoomRegistration A) → RoomResolution A
  | [] =>
    match requiredPattern with
    | some required => .failed (.notResolved required)
    | none => .ok none
  | room :: rooms =>
    if requiredPattern.any (room.pattern ≠ ·) then resolveIn params requiredPattern rooms
    else if room.paramNames = [] then .ok (some (room, room.pattern))
    else
      let provided := room.paramNames.filter fun name => (params name).isSome
      if provided = [] then resolveIn params requiredPattern rooms
      else if provided.length < room.paramNames.length then
        .failed (.missingParams room.pattern (room.paramNames.filter (· ∉ provided)))
      else if (room.exec (room.roomKey params)).isNone then .failed (.invalidKey room.pattern)
      else .ok (some (room, room.roomKey params))

def resolveRoomKey (rooms : List (RoomRegistration A)) (params : SubscriptionParams)
    (requiredPattern : Option Text) : RoomResolution A :=
  -- The empty pattern is falsy.
  let required := requiredPattern.filter (· ≠ [])
  match rooms, required with
  | [], some pattern => .failed (.notRegistered pattern)
  | rooms, required => resolveIn params required rooms

/-! ## The declare -/

/-- A key that sets the prototype of an object, and no property. -/
def protoName : Text :=
  Text.ofChars ['_', '_', 'p', 'r', 'o', 't', 'o', '_', '_']

/-- `params[name] = value`. -/
def setParam (params : Text → Option Text) (c : Text × Text) : Text → Option Text :=
  if c.1 = protoName then params else Function.update params c.1 (some c.2)

/-- `params[name] = match[i + 1]` for each name in turn. -/
def captureParams (paramNames captures : List Text) : Text → Option Text :=
  (paramNames.zip captures).foldl setParam fun _ => none

/-- The room whose regex matches the key first, with the params that it captures. -/
def findRoom (rooms : List (RoomRegistration A)) (key : Text) :
    Option (RoomRegistration A × (Text → Option Text)) :=
  rooms.findSome? fun room =>
    (room.exec key).map fun captures => (room, captureParams room.paramNames captures)

/-- The query that a declare names: its `room` option, and why `authorize` refuses the client. -/
structure DeclaredQuery where
  room : Option Text
  unauthorized : Option Text

inductive DeclareOutcome (A : Type)
  | noSession
  | unknownQuery
  | outsideShape (reason : RoomReason)
  | disconnected (reason : Option Text)
  | threw
  | unauthorized (reason : Text)
  /-- The subscription's room, and the room whose callback was asked, with the params it got. -/
  | subscribed (resolved : Option (RoomRegistration A × Text))
      (consulted : Option (RoomRegistration A × (Text → Option Text)))

/-- The callback that is asked about a key; the empty key is falsy, as no key is. -/
def consultedRoom (rooms : List (RoomRegistration A)) (roomKey : Option Text) :
    Option (RoomRegistration A × (Text → Option Text)) :=
  (roomKey.filter (· ≠ [])).bind (findRoom rooms)

/-- `session` is the auth context of the client's session. -/
def handleSyncDeclare (rooms : List (RoomRegistration A)) (query : Option DeclaredQuery)
    (params : SubscriptionParams) (session : Option A) : DeclareOutcome A :=
  match session, query with
  | none, _ => .noSession
  | some _, none => .unknownQuery
  | some auth, some query =>
    match resolveRoomKey rooms params query.room with
    | .failed reason => .outsideShape reason
    | .ok resolved =>
      let consulted := consultedRoom rooms (resolved.map Prod.snd)
      let verdict := match consulted with
        | some (room, captured) => room.callback ⟨captured, auth⟩
        | none => .allowed
      match verdict with
      | .denied reason => .disconnected reason
      | .throws => .threw
      | .allowed =>
        match query.unauthorized with
        | some reason => .unauthorized reason
        | none => .subscribed resolved consulted

/-! ## What a pattern spells -/

theorem substitute_append (f : Text → Text) (ps qs : List RoomPiece) :
    substitute f (ps ++ qs) = substitute f ps ++ substitute f qs := by
  induction ps with
  | nil => rfl
  | cons p ps ih => cases p <;> simp [substitute, ih]

theorem substitute_map_lit (f : Text → Text) (word : Text) :
    substitute f (word.map .lit : List RoomPiece) = word := by
  induction word with
  | nil => rfl
  | cons c word ih => simp [substitute, ih]

/-- The pieces spell the pattern. -/
theorem substitute_patternPieces (pattern : Text) :
    substitute (colon :: ·) (patternPieces pattern) = pattern := by
  have hscan : ∀ s : Text,
      (scanPattern s).1 ++ substitute (colon :: ·) (scanPattern s).2 = s := by
    intro s
    induction s with
    | nil => rfl
    | cons c s ih =>
        simp only [scanPattern]
        split
        · simp [ih]
        · split
          · rename_i hcolon
            simp [substitute, hcolon.1, ih]
          · simp [substitute, substitute_append, substitute_map_lit, ih]
  rw [patternPieces, substitute_append, substitute_map_lit]
  exact hscan pattern

theorem substitute_congr {f g : Text → Text} {ps : List RoomPiece}
    (h : ∀ name ∈ names ps, f name = g name) : substitute f ps = substitute g ps := by
  induction ps with
  | nil => rfl
  | cons p ps ih =>
      cases p with
      | lit c => exact congrArg (c :: ·) (ih h)
      | param name =>
          obtain ⟨hname, hrest⟩ := List.forall_mem_cons.1 h
          simp only [substitute, hname, ih hrest]

/-! ## What is resolved -/

/-- The loop goes on to the next room. -/
def SkipsPattern (params : SubscriptionParams) (requiredPattern : Option Text) (pattern : Text) :
    Prop :=
  (∃ required, requiredPattern = some required ∧ pattern ≠ required) ∨
    (names (patternPieces pattern) ≠ [] ∧ ∀ name ∈ names (patternPieces pattern),
      params name = none)

/-- A room and its key as the loop answers them. -/
structure Resolves (rooms : List (RoomRegistration A)) (params : SubscriptionParams)
    (room : RoomRegistration A) (key : Text) : Prop where
  /-- It is the first room with its pattern. -/
  first : ∃ before after, rooms = before ++ room :: after ∧
    ∀ r ∈ before, r.pattern ≠ room.pattern
  provided : ∀ name ∈ room.paramNames, (params name).isSome
  key_eq : key = room.roomKey params
  reads : ∃ captures, Parses slash room.pieces key captures

theorem RoomRegistration.roomKey_of_paramNames_nil {room : RoomRegistration A}
    (h : room.paramNames = []) (params : SubscriptionParams) :
    room.roomKey params = room.pattern := by
  have hnames : names (patternPieces room.pattern) = [] := h
  rw [← substitute_patternPieces room.pattern, RoomRegistration.roomKey, RoomRegistration.pieces]
  exact substitute_congr (by simp [hnames])

theorem resolveIn_ok {params : SubscriptionParams} {requiredPattern : Option Text}
    {rooms : List (RoomRegistration A)} {room : RoomRegistration A} {key : Text}
    (h : resolveIn params requiredPattern rooms = .ok (some (room, key))) :
    Resolves rooms params room key ∧ ¬ SkipsPattern params requiredPattern room.pattern := by
  induction rooms with
  | nil => cases requiredPattern <;> cases h
  | cons r rooms ih =>
      -- A room that is skipped does not have the pattern of the one that is found.
      have hskip : SkipsPattern params requiredPattern r.pattern →
          resolveIn params requiredPattern rooms = .ok (some (room, key)) →
          Resolves (r :: rooms) params room key ∧
            ¬ SkipsPattern params requiredPattern room.pattern := by
        intro hr hrest
        obtain ⟨⟨⟨before, after, rfl, hbefore⟩, hprovided, hkey, hreads⟩, hroom⟩ := ih hrest
        have hne : r.pattern ≠ room.pattern := fun heq => hroom (heq ▸ hr)
        exact ⟨⟨⟨r :: before, after, rfl, List.forall_mem_cons.2 ⟨hne, hbefore⟩⟩, hprovided, hkey,
          hreads⟩, hroom⟩
      rw [resolveIn] at h
      split at h
      · rename_i hrequired
        obtain ⟨required, hsome, hne⟩ := (Option.any_eq_true _ _).1 hrequired
        exact hskip (Or.inl ⟨required, hsome, of_decide_eq_true hne⟩) h
      · rename_i hrequired
        have hpattern : ∀ required, requiredPattern = some required → r.pattern = required := by
          intro required hsome
          simpa [hsome] using hrequired
        split at h
        · rename_i hnames
          cases h
          have hkey := room.roomKey_of_paramNames_nil hnames params
          refine ⟨⟨⟨[], rooms, rfl, by simp⟩, by simp [hnames], hkey.symm, [], ?_⟩, ?_⟩
          · rw [← hkey]
            exact parses_substitute_of_names_nil hnames _
          · rintro (⟨required, hsome, hne⟩ | ⟨hne, -⟩)
            · exact hne (hpattern required hsome)
            · exact hne hnames
        · rename_i hnames
          dsimp only at h
          split at h
          · rename_i hnone
            refine hskip (Or.inr ⟨hnames, fun name hname => ?_⟩) h
            simpa using List.filter_eq_nil_iff.1 hnone name hname
          · split at h
            · cases h
            · split at h
              · cases h
              · rename_i hprovided hlength hexec
                cases h
                have hall := List.length_filter_eq_length_iff.1
                  (Nat.le_antisymm (List.length_filter_le _ _) (Nat.not_lt.1 hlength))
                have hreads := exec_isSome_iff.1 (Option.isSome_iff_ne_none.2 fun hnone =>
                  hexec (Option.isNone_iff_eq_none.2 hnone))
                refine ⟨⟨⟨[], rooms, rfl, by simp⟩, hall, rfl, hreads⟩, ?_⟩
                rintro (⟨required, hsome, hne⟩ | ⟨hne, hnone⟩)
                · exact hne (hpattern required hsome)
                · obtain ⟨name, hname⟩ := List.exists_mem_of_ne_nil _ hne
                  have hsome := hall name hname
                  rw [hnone name hname] at hsome
                  cases hsome

theorem resolveRoomKey_ok {rooms : List (RoomRegistration A)} {params : SubscriptionParams}
    {requiredPattern : Option Text} {room : RoomRegistration A} {key : Text}
    (h : resolveRoomKey rooms params requiredPattern = .ok (some (room, key))) :
    Resolves rooms params room key := by
  cases rooms with
  | nil =>
      simp only [resolveRoomKey] at h
      split at h
      · cases h
      · exact (resolveIn_ok h).1
  | cons r rooms => exact (resolveIn_ok h).1

theorem handleSyncDeclare_subscribed {rooms : List (RoomRegistration A)}
    {query : Option DeclaredQuery} {params : SubscriptionParams} {session : Option A}
    {room : RoomRegistration A} {key : Text}
    {consulted : Option (RoomRegistration A × (Text → Option Text))}
    (h : handleSyncDeclare rooms query params session = .subscribed (some (room, key)) consulted) :
    Resolves rooms params room key ∧ consulted = consultedRoom rooms (some key) := by
  unfold handleSyncDeclare at h
  split at h
  · cases h
  · cases h
  · split at h
    · cases h
    · rename_i resolved hresolved
      dsimp only at h
      repeat' split at h
      all_goals cases h
      all_goals exact ⟨resolveRoomKey_ok hresolved, rfl⟩

/-! ## The callback of the resolved room -/

/-- The room's own callback was asked, about the values that stand in its key. -/
def CallbackAgrees (room : RoomRegistration A) (params : SubscriptionParams)
    (consulted : Option (RoomRegistration A × (Text → Option Text))) : Prop :=
  ∃ received, consulted = some (room, received) ∧
    ∀ name, received name = if name ∈ room.paramNames then params name else none

/-- The rooms that were registered before the room's pattern. -/
def registeredBefore (rooms : List (RoomRegistration A)) (room : RoomRegistration A) :
    List (RoomRegistration A) :=
  rooms.takeWhile (·.pattern ≠ room.pattern)

/-- The key of the room reads back. -/
structure ReadsBack (rooms : List (RoomRegistration A)) (params : SubscriptionParams)
    (room : RoomRegistration A) : Prop where
  nonempty : room.roomKey params ≠ []
  /-- No pattern that was registered earlier reads it. -/
  first : ∀ r ∈ registeredBefore rooms room,
    ¬ ∃ captures, Parses slash r.pieces (room.roomKey params) captures
  /-- Its greediest reading gives each param its value. -/
  values : ∀ captures, Greediest slash room.pieces (room.roomKey params) captures →
    ∀ name ∈ room.paramNames, captureParams room.paramNames captures name = params name

theorem setParam_of_ne {params : Text → Option Text} {c : Text × Text} {name : Text}
    (h : name ≠ c.1) : setParam params c name = params name := by
  rw [setParam]
  split
  · rfl
  · exact Function.update_of_ne h _ _

theorem setParam_self {params : Text → Option Text} {name value : Text}
    (h : name ≠ protoName) : setParam params (name, value) name = some value := by
  simp [setParam, h]

theorem captureParams_of_not_mem {paramNames : List Text} {name : Text} (h : name ∉ paramNames)
    (captures : List Text) : captureParams paramNames captures name = none := by
  have hfold : ∀ (cs : List (Text × Text)) (params : Text → Option Text),
      (∀ c ∈ cs, name ≠ c.1) → cs.foldl setParam params name = params name := by
    intro cs
    induction cs with
    | nil => intro params _; rfl
    | cons c cs ih =>
        intro params hcs
        obtain ⟨hc, hrest⟩ := List.forall_mem_cons.1 hcs
        exact (ih _ hrest).trans (setParam_of_ne hc)
  apply hfold
  rintro ⟨n, w⟩ hc rfl
  exact h (List.of_mem_zip hc).1

theorem findRoom_eq_some {rooms : List (RoomRegistration A)} {key : Text}
    {room : RoomRegistration A} {received : Text → Option Text}
    (h : findRoom rooms key = some (room, received)) :
    ∃ before after captures, rooms = before ++ room :: after ∧ room.exec key = some captures ∧
      received = captureParams room.paramNames captures ∧ ∀ r ∈ before, r.exec key = none := by
  obtain ⟨before, r, after, rfl, hr, hbefore⟩ := List.findSome?_eq_some_iff.1 h
  obtain ⟨captures, hexec, heq⟩ := Option.map_eq_some_iff.1 hr
  cases heq
  exact ⟨before, after, captures, rfl, hexec, rfl,
    fun r' hr' => Option.map_eq_none_iff.1 (hbefore r' hr')⟩

theorem captureParams_map {paramNames : List Text} {f : Text → Text} {name : Text}
    (h : name ∈ paramNames) (hproto : name ≠ protoName) :
    captureParams paramNames (paramNames.map f) name = some (f name) := by
  have hfold : ∀ (ns : List Text) (params : Text → Option Text),
      (name ∈ ns ∨ params name = some (f name)) →
      (ns.zip (ns.map f)).foldl setParam params name = some (f name) := by
    intro ns
    induction ns with
    | nil => exact fun params hor => hor.resolve_left List.not_mem_nil
    | cons n ns ih =>
        intro params hor
        apply ih
        by_cases hn : name = n
        · subst hn
          exact Or.inr (setParam_self hproto)
        · refine Or.imp (fun hmem => (List.mem_cons.1 hmem).resolve_left hn) (fun hsome => ?_) hor
          exact (setParam_of_ne hn).trans hsome
  exact hfold paramNames _ (Or.inl h)

/-- Where params are apart, the values of an accepted key are read back, whatever they are. -/
theorem values_of_separated {rooms : List (RoomRegistration A)} {params : SubscriptionParams}
    {room : RoomRegistration A} {key : Text} (h : Resolves rooms params room key)
    (hsep : Separated slash room.pieces) (hproto : protoName ∉ room.paramNames)
    {captures : List Text} (hcaptures : Greediest slash room.pieces key captures) {name : Text}
    (hname : name ∈ room.paramNames) :
    captureParams room.paramNames captures name = params name := by
  have hparses := hcaptures.parses
  rw [h.key_eq] at hparses
  rw [hparses.eq_of_separated hsep]
  obtain ⟨value, hvalue⟩ := Option.isSome_iff_exists.1 (h.provided name hname)
  have hread : captureParams room.paramNames
      (room.paramNames.map fun name => (params name).getD []) name = some ((params name).getD []) :=
    captureParams_map hname fun heq => hproto (heq ▸ hname)
  rw [RoomRegistration.paramNames] at hread ⊢
  rw [hread, hvalue, Option.getD_some]

/-! ### Two patterns that one key fits -/

/-- A registration that lets everybody in. -/
def openRoom (pattern : List Char) : RoomRegistration Unit :=
  ⟨Text.ofChars pattern, fun _ => .allowed⟩

/-- One param and its value. -/
def oneParam (name value : List Char) : SubscriptionParams :=
  fun n => if n = Text.ofChars name then some (Text.ofChars value) else none

def anyQuery : DeclaredQuery :=
  ⟨none, none⟩

def orgRoom : RoomRegistration Unit :=
  openRoom ['o', '/', ':', 'x']

def roomOfOrg : RoomRegistration Unit :=
  openRoom [':', 'y', '/', 'b']

end Server
end Reflectdb
