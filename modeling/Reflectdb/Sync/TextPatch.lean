import Reflectdb.Client.JsonStore
import Reflectdb.Core.TextLaws
import Reflectdb.Lib.Numeral

/-!
# Text patches — a text column that is sent as its change

The server sends hunks in place of a long text where the cache says what the client holds, with the
hash of the text they lead to.  The client that holds something else refuses the whole delta.
-/

namespace Reflectdb
namespace Sync

open Core Client Lib

/-! ## Rows of texts -/

/-- `typeof row[column] === "string"`, with the string. -/
def stringAt (row : JsonStore.Row) (column : String) : Option Lib.Text :=
  match row.lookup column with
  | some (.str s) => some s
  | _ => none

/-- `{ hunks, hash }` -/
structure TextPatch where
  hunks : List (TextHunk UInt16)
  hash : UInt32

/-! ## The server: `patchTextColumns` -/

/-- Below this a whole value is about as small as a patch of it. -/
def MIN_PATCH_LENGTH : Nat := 256

def bracketed (elems : List Lib.Text) : Lib.Text :=
  JsonText.openBracket :: ([JsonText.comma].intercalate elems ++ [JsonText.closeBracket])

/-- `JSON.stringify(hunks)` -/
def stringifyHunks (hunks : List (TextHunk UInt16)) : Lib.Text :=
  bracketed (hunks.map fun h => bracketed [decimal h.start, decimal h.stop, quote h.insert])

/-- The patch that is sent in place of the column, if one is. -/
def patchOf (changed held : JsonStore.Row) (column : String) : Option TextPatch :=
  match stringAt changed column, stringAt held column with
  | some next, some prev =>
    if next.length < MIN_PATCH_LENGTH then none
    else
      let hunks := diffText id prev next
      if next.length < (stringifyHunks hunks).length * 2 then none
      else some ⟨hunks, hashText id next⟩
  | _, _ => none

/-- What is sent of an update; no patches are an `undefined` field. -/
structure PatchedUpdate where
  payload : JsonStore.Row
  textPatches : Record TextPatch

def patchColumn (changed held : JsonStore.Row) (update : PatchedUpdate) (column : String) :
    PatchedUpdate :=
  match patchOf changed held column with
  | some patch => ⟨update.payload.erase column, update.textPatches.insert column patch⟩
  | none => update

/-- Send a text column's change instead of its value when that is clearly smaller. -/
def patchTextColumns (changed : JsonStore.Row) (held : Option JsonStore.Row)
    (textColumns : Option (List String)) : PatchedUpdate :=
  match textColumns, held with
  | some columns, some held => columns.foldl (patchColumn changed held) ⟨changed, ∅⟩
  | _, _ => ⟨changed, ∅⟩

/-- An `update` delta of one row. -/
structure UpdateDelta extends PatchedUpdate where
  hlc : Hlc
  colClocks : Record Hlc

/-- The delta that a broadcast sends of the changed columns. -/
def updateDelta (changed : JsonStore.Row) (held : Option JsonStore.Row)
    (textColumns : Option (List String)) (hlc : Hlc) : UpdateDelta where
  toPatchedUpdate := patchTextColumns changed held textColumns
  hlc := hlc
  colClocks := replay ∅ (changed.keys.map fun column => (column, hlc))

/-! ## The client: `unpatchText` and `applyDelta` -/

/-- A client, as far as one row of it goes. -/
structure PatchClient where
  pk : String
  rowId : Lib.Text
  row : Option JsonStore.LocalRow
  closed : Bool
  bootstrapScheduled : Bool

/-- What the hunks make of the text that is held, if this is the text they were made for. -/
def patchedText (row : Option JsonStore.Row) (column : String) (patch : TextPatch) :
    Option Lib.Text :=
  match row.bind (stringAt · column) with
  | some held =>
    let value := applyHunks held patch.hunks
    if hashText id value = patch.hash then some value else none
  | none => none

/-- One round of the loop: the value takes its place in the payload. -/
def unpatchColumn (row : Option JsonStore.Row) (payload : JsonStore.Row) (e : String × TextPatch) :
    Option JsonStore.Row :=
  (patchedText row e.1 e.2).map fun value => Server.assignAll payload [(e.1, .str value)]

/-- The payload with the values of the patches; `none` where one does not apply to what is held. -/
def unpatchText (row : Option JsonStore.Row) (update : PatchedUpdate) : Option JsonStore.Row :=
  (writes update.textPatches.entries).foldlM (unpatchColumn row) update.payload

namespace PatchClient

variable (client : PatchClient)

/-- `store.getRow(table, rowId)?.data`: a tombstone is no row. -/
def data : Option JsonStore.Row :=
  client.row.bind (·.data)

def valueAt (column : String) : Option JsonText.Value :=
  client.data.bind (·.lookup column)

/-- The string that the client holds. -/
def heldText (column : String) : Option Lib.Text :=
  client.data.bind (stringAt · column)

/-- `if (!this.closed) this.scheduleBootstrap()`, which does nothing where one is scheduled. -/
def bootstrapUnlessClosed : PatchClient :=
  { client with bootstrapScheduled := client.bootstrapScheduled || ! client.closed }

/-- The update of the row, with the values of its patches in the payload. -/
def unpatched (payload : JsonStore.Row) (msg : UpdateDelta) : JsonStore.Delta :=
  ⟨.update, client.rowId, some payload, msg.hlc, some msg.colClocks⟩

def accept (payload : JsonStore.Row) (msg : UpdateDelta) : PatchClient :=
  { client with
    row := (JsonStore.applyEntry client.pk client.row
      (client.unpatched payload msg)).or client.row }

/-- A `delta` message with an update of the row. -/
def handleUpdate (msg : UpdateDelta) : PatchClient :=
  match unpatchText client.data msg.toPatchedUpdate with
  | some payload => client.accept payload msg
  | none => client.bootstrapUnlessClosed

/-- The store takes the column from a delta with the HLC: it has no row, or an older clock of the
column, which is not one that objects do not hold. -/
def Takes (hlc : Hlc) (column : String) : Prop :=
  ∀ row, client.row = some row →
    column ≠ "__proto__" ∧ Server.wins row.colClocks hlc column = true

end PatchClient

/-! ## What is sent -/

section Server

variable {changed held : JsonStore.Row}

/-- Of each column, the value is sent, or its patch. -/
def Sends (changed held : JsonStore.Row) (update : PatchedUpdate) (column : String) : Prop :=
  update.textPatches.lookup column = none ∧ update.payload.lookup column = changed.lookup column ∨
    ∃ patch, patchOf changed held column = some patch ∧
      update.textPatches.lookup column = some patch ∧ update.payload.lookup column = none

theorem sends_patchColumn {update : PatchedUpdate} (h : ∀ c, Sends changed held update c)
    (column c : String) : Sends changed held (patchColumn changed held update column) c := by
  unfold patchColumn
  cases hpatch : patchOf changed held column with
  | none => exact h c
  | some patch =>
      by_cases hc : c = column
      · subst hc
        exact .inr ⟨patch, hpatch, AList.lookup_insert _, AList.lookup_erase _ _⟩
      · unfold Sends
        rw [AList.lookup_insert_ne hc, AList.lookup_erase_ne hc]
        exact h c

theorem sends_patchColumns (columns : List String) {update : PatchedUpdate}
    (h : ∀ c, Sends changed held update c) (c : String) :
    Sends changed held (columns.foldl (patchColumn changed held) update) c := by
  induction columns generalizing update with
  | nil => exact h c
  | cons column columns ih => exact ih (sends_patchColumn h column)

theorem sends_patchTextColumns (held : Option JsonStore.Row) (textColumns : Option (List String))
    (c : String) :
    Sends changed (held.getD ∅) (patchTextColumns changed held textColumns) c := by
  have hstart : ∀ held c, Sends changed held ⟨changed, ∅⟩ c := fun _ _ => .inl ⟨rfl, rfl⟩
  unfold patchTextColumns
  split
  · exact sends_patchColumns _ (hstart _) c
  · exact hstart _ c

/-- A patch leads from the text of the cache to the new one, and has the hash of this. -/
theorem patchOf_spec {column : String} {patch : TextPatch}
    (h : patchOf changed held column = some patch) :
    ∃ prev next, stringAt held column = some prev ∧ stringAt changed column = some next ∧
      applyHunks prev patch.hunks = next ∧ patch.hash = hashText id next := by
  unfold patchOf at h
  split at h
  · rename_i next prev hnext hprev
    dsimp only at h
    split at h
    · cases h
    · split at h
      · cases h
      · cases h
        exact ⟨prev, next, hprev, hnext, applyHunks_diffText_id prev next, rfl⟩
  · cases h

end Server

/-! ## What the client makes of it -/

section Client

variable {row : Option JsonStore.Row}

/-- Each patch of an accepted delta applied, and its value is in the payload, unless its name is one
that objects do not hold; all else is there as it was sent. -/
theorem lookup_of_unpatchColumns {patches : List (String × TextPatch)}
    {payload unpatched : JsonStore.Row} (hnodup : (patches.map (·.1)).Nodup)
    (h : patches.foldlM (unpatchColumn row) payload = some unpatched) :
    (∀ e ∈ patches, ∃ value, patchedText row e.1 e.2 = some value ∧
      (e.1 ≠ "__proto__" → unpatched.lookup e.1 = some (.str value))) ∧
    ∀ c, c ∉ patches.map (·.1) → unpatched.lookup c = payload.lookup c := by
  induction patches generalizing payload with
  | nil =>
      cases h
      exact ⟨fun _ hmem => absurd hmem List.not_mem_nil, fun _ _ => rfl⟩
  | cons e patches ih =>
      rw [List.map_cons, List.nodup_cons] at hnodup
      rw [List.foldlM_cons, unpatchColumn] at h
      rcases Option.bind_eq_some_iff.1 h with ⟨payload', hvalue, hrest⟩
      rcases Option.map_eq_some_iff.1 hvalue with ⟨value, happlies, rfl⟩
      have hlater := ih hnodup.2 hrest
      refine ⟨fun e' hmem => ?_, fun c hc => ?_⟩
      · rcases List.mem_cons.1 hmem with rfl | hmem
        · refine ⟨value, happlies, fun hname => ?_⟩
          rw [hlater.2 _ hnodup.1, Server.lookup_assignAll, if_neg hname]
          simp [lastWrite]
        · exact hlater.1 e' hmem
      · rw [List.map_cons, List.mem_cons, not_or] at hc
        rw [hlater.2 c hc.2, Server.lookup_assignAll]
        simp [lastWrite, Ne.symm hc.1]

/-- A refused delta has a patch that does not apply. -/
theorem exists_of_unpatchColumns {patches : List (String × TextPatch)} {payload : JsonStore.Row}
    (h : patches.foldlM (unpatchColumn row) payload = none) :
    ∃ e ∈ patches, patchedText row e.1 e.2 = none := by
  induction patches generalizing payload with
  | nil => cases h
  | cons e patches ih =>
      cases happlies : patchedText row e.1 e.2 with
      | none => exact ⟨e, List.mem_cons_self, happlies⟩
      | some value =>
          rw [List.foldlM_cons, unpatchColumn, happlies] at h
          rcases ih h with ⟨e', hmem, hnone⟩
          exact ⟨e', List.mem_cons_of_mem e hmem, hnone⟩

/-- A patch that applies leads to a text with the hash it was made for: the new text, if the one
held is the one it was made on. -/
theorem patchedText_eq_some {column : String} {patch : TextPatch} {value : Lib.Text}
    (h : patchedText row column patch = some value) :
    hashText id value = patch.hash ∧
      ∃ held, row.bind (stringAt · column) = some held ∧ value = applyHunks held patch.hunks := by
  unfold patchedText at h
  split at h
  · rename_i held hheld
    dsimp only at h
    split at h
    · rename_i hhash
      cases h
      exact ⟨hhash, held, hheld, rfl⟩
    · cases h
  · cases h

theorem patchedText_of_held {changed held : JsonStore.Row} {column : String} {patch : TextPatch}
    (h : patchOf changed held column = some patch)
    (hheld : row.bind (stringAt · column) = stringAt held column) :
    (patchedText row column patch).isSome := by
  rcases patchOf_spec h with ⟨prev, next, hprev, -, happlies, hhash⟩
  rw [patchedText, hheld, hprev]
  simp [happlies, hhash]

end Client

/-! ## Delivery -/

section Delivery

variable {changed : JsonStore.Row} {held : Option JsonStore.Row}
  {textColumns : Option (List String)}
  {hlc : Hlc} {client : PatchClient}

theorem lookup_colClocks_updateDelta (column : String) :
    ((updateDelta changed held textColumns hlc).colClocks.lookup column).getD hlc = hlc := by
  rw [updateDelta, lookup_replay_empty, lastWrite_const]
  split <;> rfl

theorem mem_writes_iff {V : Type} {m : Record V} {e : String × V} :
    e ∈ writes m.entries ↔ m.lookup e.1 = some e.2 := by
  rw [← mem_entries_iff, writes, List.mem_map]
  constructor
  · rintro ⟨e', he', rfl⟩
    exact he'
  · exact fun he => ⟨_, he, rfl⟩

theorem valueAt_accept_of_merged {row : JsonStore.LocalRow} (hrow : client.row = some row)
    {payload : JsonStore.Row} {msg : UpdateDelta} {column : String} {value : JsonText.Value}
    (h : JsonStore.merged row (client.unpatched payload msg) column = some value) :
    (client.accept payload msg).valueAt column = some value := by
  unfold PatchClient.valueAt PatchClient.data PatchClient.accept
  rw [hrow]
  rcases JsonStore.applyEntry_update client.pk row
    (show (client.unpatched payload msg).op = .update from rfl) with
    ⟨hnone, hsame⟩ | ⟨data, clocks, rowHlc, hsome, hdata⟩
  · rw [hsame] at h
    rw [hnone]
    cases hdata : row.data with
    | none => simp [hdata] at h
    | some data => simpa [hdata] using h
  · rw [hsome]
    exact JsonStore.lookup_withPk ((hdata column).trans h)

/-- A column that the store takes has the value of the payload. -/
theorem valueAt_accept {payload : JsonStore.Row} {column : String} {value : JsonText.Value}
    (h : payload.lookup column = some value) (htakes : client.Takes hlc column) :
    (client.accept payload (updateDelta changed held textColumns hlc)).valueAt column =
      some value := by
  cases hrow : client.row with
  | none =>
      unfold PatchClient.valueAt PatchClient.data PatchClient.accept
      rw [hrow]
      exact JsonStore.lookup_withPk h
  | some row =>
      refine valueAt_accept_of_merged hrow ?_
      have htaken := htakes row hrow
      unfold JsonStore.merged PatchClient.unpatched JsonStore.Delta.clockOf
      rw [if_neg htaken.1]
      simp only [Option.getD_some, h]
      rw [show (updateDelta changed held textColumns hlc).hlc = hlc from rfl,
        lookup_colClocks_updateDelta, htaken.2]
      rfl

/-- Any other column keeps the value it had. -/
theorem valueAt_accept_of_not_takes {payload : JsonStore.Row} {column : String}
    {value : JsonText.Value} (h : client.valueAt column = some value)
    (hkept : ¬ client.Takes hlc column) :
    (client.accept payload (updateDelta changed held textColumns hlc)).valueAt column =
      some value := by
  simp only [PatchClient.Takes, not_forall] at hkept
  rcases hkept with ⟨row, hrow, hkept⟩
  have hold : (row.data.getD ∅).lookup column = some value := by
    unfold PatchClient.valueAt PatchClient.data at h
    rw [hrow] at h
    cases hdata : row.data with
    | none => simp [hdata] at h
    | some data => simpa [hdata] using h
  refine valueAt_accept_of_merged hrow ?_
  unfold JsonStore.merged PatchClient.unpatched JsonStore.Delta.clockOf
  split
  · exact hold
  · rename_i hname
    have hloses : Server.wins row.colClocks hlc column = false :=
      Bool.eq_false_iff.2 fun hwins => hkept ⟨hname, hwins⟩
    simp only [Option.getD_some]
    rw [show (updateDelta changed held textColumns hlc).hlc = hlc from rfl,
      lookup_colClocks_updateDelta, hloses, hold]
    cases payload.lookup column <;> rfl

/-- The value that was sent, or a text that has the hash of the one that was sent. -/
def SameHash (arrived sent : JsonText.Value) : Prop :=
  arrived = sent ∨ ∃ text next, arrived = .str text ∧ sent = .str next ∧
    hashText id text = hashText id next

/-- The columns of an accepted delta are there, each as it was sent, if it was sent as a value or if
the client held what the cache has; a column that the store does not take keeps its value. -/
structure Delivered (changed prev : JsonStore.Row) (msg : UpdateDelta)
    (client after : PatchClient) :
    Prop where
  taken : ∀ column value, changed.lookup column = some value → client.Takes msg.hlc column →
    ∃ arrived, after.valueAt column = some arrived ∧ SameHash arrived value ∧
      (column ∉ msg.textPatches ∨ client.heldText column = stringAt prev column → arrived = value)
  kept : ∀ column value, ¬ client.Takes msg.hlc column → client.valueAt column = some value →
    after.valueAt column = some value

/-- Some patch was made on a text that the client does not hold.  The row stays as it is in every
column. -/
structure Refused (prev : JsonStore.Row) (msg : UpdateDelta) (client after : PatchClient) :
    Prop where
  unchanged : after.row = client.row
  bootstraps : after.bootstrapScheduled = (client.bootstrapScheduled || ! client.closed)
  diverged : ∃ column ∈ msg.textPatches, client.heldText column ≠ stringAt prev column

/-- What `unpatchText` makes of a column that was sent, as its value or as its patch. -/
theorem lookup_unpatchText {unpatched : JsonStore.Row} {column : String} {value : JsonText.Value}
    (h : unpatchText client.data (patchTextColumns changed held textColumns) = some unpatched)
    (hsent : changed.lookup column = some value) (htakes : client.Takes hlc column) :
    ∃ arrived, unpatched.lookup column = some arrived ∧ SameHash arrived value ∧
      (column ∉ (patchTextColumns changed held textColumns).textPatches ∨
        client.heldText column = stringAt (held.getD ∅) column → arrived = value) := by
  have hlookup := lookup_of_unpatchColumns (nodup_map_fst_writes _) h
  rcases @sends_patchTextColumns changed held textColumns column with
    ⟨hpatch, hpayload⟩ | ⟨patch, hpatchOf, hpatch, -⟩
  · have hnot : column ∉
        (writes (patchTextColumns changed held textColumns).textPatches.entries).map (·.1) := by
      intro hmem
      rcases List.mem_map.1 hmem with ⟨e, he, rfl⟩
      rw [mem_writes_iff, hpatch] at he
      cases he
    exact ⟨value, by rw [hlookup.2 column hnot, hpayload, hsent], .inl rfl, fun _ => rfl⟩
  · rcases hlookup.1 (column, patch) (mem_writes_iff.2 hpatch) with ⟨text, happlied, harrived⟩
    rcases patchOf_spec hpatchOf with ⟨prev, next, hprev, hnext, happlies, hhash⟩
    rcases patchedText_eq_some happlied with ⟨hhash', heldText, hheld, rfl⟩
    have hvalue : value = .str next := by
      unfold stringAt at hnext
      rw [hsent] at hnext
      split at hnext
      · rename_i hstr
        cases hstr
        cases hnext
        rfl
      · cases hnext
    -- The client holds a text there, so that it has the row.
    have hname : column ≠ "__proto__" := by
      unfold PatchClient.data at hheld
      cases hrow : client.row with
      | none =>
          rw [hrow] at hheld
          cases hheld
      | some row => exact (htakes row hrow).1
    refine ⟨_, harrived hname, .inr ⟨_, _, rfl, hvalue, hhash'.trans hhash⟩, fun hagrees => ?_⟩
    rcases hagrees with hnone | hagrees
    · exact absurd (AList.lookup_isSome.1 (Option.isSome_of_eq_some hpatch)) hnone
    · have hsame : heldText = prev := by
        have heq : some heldText = some prev := hheld.symm.trans (hagrees.trans hprev)
        exact Option.some.inj heq
      rw [hvalue, hsame, happlies]

/-- An update is delivered, or it is refused as a whole. -/
theorem delivered_or_refused (changed : JsonStore.Row) (held : Option JsonStore.Row)
    (textColumns : Option (List String)) (hlc : Hlc) (client : PatchClient) :
    Delivered changed (held.getD ∅) (updateDelta changed held textColumns hlc) client
        (client.handleUpdate (updateDelta changed held textColumns hlc)) ∨
      Refused (held.getD ∅) (updateDelta changed held textColumns hlc) client
        (client.handleUpdate (updateDelta changed held textColumns hlc)) := by
  unfold PatchClient.handleUpdate
  cases hunpatched : unpatchText client.data
      (updateDelta changed held textColumns hlc).toPatchedUpdate with
  | some payload =>
      left
      constructor
      · intro column value hsent htakes
        rcases lookup_unpatchText hunpatched hsent htakes with ⟨arrived, harrived, hspec⟩
        exact ⟨arrived, valueAt_accept harrived htakes, hspec⟩
      · intro column value hkept hheld
        exact valueAt_accept_of_not_takes hheld hkept
  | none =>
      right
      rcases exists_of_unpatchColumns hunpatched with ⟨e, hmem, hfails⟩
      have hpatch := mem_writes_iff.1 hmem
      refine ⟨rfl, rfl, e.1, AList.lookup_isSome.1 (Option.isSome_of_eq_some hpatch), ?_⟩
      intro hagrees
      rcases @sends_patchTextColumns changed held textColumns e.1 with
        ⟨hnone, -⟩ | ⟨patch, hpatchOf, hpatch', -⟩
      · rw [show (patchTextColumns changed held textColumns).textPatches.lookup e.1 = some e.2 from
          hpatch] at hnone
        cases hnone
      · have hsame : patch = e.2 := Option.some.inj (hpatch'.symm.trans hpatch)
        have happlies := patchedText_of_held hpatchOf hagrees
        rw [hsame, hfails] at happlies
        cases happlies

/-- An update with patches of any number of columns, at a client in any state.  Where the client
holds what the cache has in each column that is patched, it has afterwards every column that it
takes just as the server has it.  Otherwise it has texts with the hashes of the server's, or it
refuses the update as a whole, stays as it is and bootstraps unless it is closed. -/
theorem text_patch_delivery (changed : JsonStore.Row) (held : Option JsonStore.Row)
    (textColumns : Option (List String)) (hlc : Hlc) (client : PatchClient) :
    let msg := updateDelta changed held textColumns hlc
    let after := client.handleUpdate msg
    ((∀ column ∈ msg.textPatches, client.heldText column = stringAt (held.getD ∅) column) →
      ∀ column value, changed.lookup column = some value → client.Takes hlc column →
        after.valueAt column = some value) ∧
    (Delivered changed (held.getD ∅) msg client after ∨
      Refused (held.getD ∅) msg client after) := by
  intro msg after
  have hcases := delivered_or_refused changed held textColumns hlc client
  refine ⟨fun hagrees column value hsent htakes => ?_, hcases⟩
  rcases hcases with hdelivered | hrefused
  · rcases hdelivered.taken column value hsent htakes with ⟨arrived, harrived, -, hexact⟩
    have hsame : column ∉ msg.textPatches ∨
        client.heldText column = stringAt (held.getD ∅) column := by
      by_cases hpatched : column ∈ msg.textPatches
      · exact .inr (hagrees column hpatched)
      · exact .inl hpatched
    rw [harrived, hexact hsame]
  · rcases hrefused.diverged with ⟨patched, hpatched, hdiverged⟩
    exact absurd (hagrees patched hpatched) hdiverged

/-- 257 letters where the cache has 256 of them. -/
def grownText : JsonStore.Row × JsonStore.Row :=
  ((∅ : JsonStore.Row).insert "body" (.str (List.replicate 257 97)),
    (∅ : JsonStore.Row).insert "body" (.str (List.replicate 256 97)))

/-- A client that has been closed, and that does not have the row. -/
def closedClient : PatchClient :=
  ⟨"id", [49], none, true, false⟩

/-- A closed client refuses a patch of a row that it does not have, and bootstraps no more. -/
theorem text_patch_refused_closed :
    ¬ ∀ (changed held : JsonStore.Row) (textColumns : Option (List String)) (hlc : Hlc)
      (client : PatchClient) (column : String) (next : Lib.Text),
      column ∈ (updateDelta changed (some held) textColumns hlc).textPatches →
      stringAt changed column = some next →
        let after := client.handleUpdate (updateDelta changed (some held) textColumns hlc)
        (client.heldText column = stringAt held column →
          after.valueAt column = some (.str next)) ∧
        ((∃ text, after.valueAt column = some (.str text) ∧ hashText id text = hashText id next) ∨
          after.row = client.row ∧ after.bootstrapScheduled = true) := by
  intro h
  have hpatched :
      ((updateDelta grownText.1 (some grownText.2) (some ["body"]) "1.0.a").textPatches.lookup
      "body").isSome = true := by
    decide +kernel
  have hclosed := (h grownText.1 grownText.2 (some ["body"]) "1.0.a" closedClient "body" _
    (AList.lookup_isSome.1 hpatched) rfl).2
  have hmissing : ((closedClient.handleUpdate
      (updateDelta grownText.1 (some grownText.2) (some ["body"]) "1.0.a")).valueAt "body").isNone =
        true := by
    decide +kernel
  have hunscheduled : (closedClient.handleUpdate
      (updateDelta grownText.1 (some grownText.2) (some ["body"]) "1.0.a")).bootstrapScheduled =
        false := by
    decide +kernel
  rcases hclosed with ⟨text, htext, -⟩ | ⟨-, hscheduled⟩
  · rw [htext] at hmissing
    cases hmissing
  · rw [hunscheduled] at hscheduled
    cases hscheduled

end Delivery

end Sync
end Reflectdb
