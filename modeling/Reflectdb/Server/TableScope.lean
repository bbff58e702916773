import Reflectdb.Lib.Machine
import Reflectdb.Lib.Table
import Reflectdb.Server.Conflict

/-!
# Table scope — `defineTable` mutations of a table with a scope column

A mutation passes the guards of its kind, has its payload rewritten, and is written by the adapter.
The guards compare the scope column of the payload (on insert) or of the existing row (on update and
delete) with the value in the context; the rewriting of the payload comes after them, and an insert
is an upsert.
-/

namespace Reflectdb
namespace Server

open Core Client Lib

/-! ## Contexts -/

structure MutationContext where
  auth : Json
  params : Json

/-- `cur[p]` of an object or an array. -/
def member (cur : Json) (p : String) : Option Json :=
  match cur with
  | .obj fields => objField fields p
  | .arr elems => ((arrElems elems).zipIdx.find? fun e => toString e.2 = p).map (·.1)
  | _ => none

/-- `getByDottedPath` from the object of `auth` and `params`. -/
def getByDottedPath (ctx : MutationContext) (path : String) : Option Json :=
  match path.splitOn "." with
  | "auth" :: parts => parts.foldl (fun cur p => cur.bind (member · p)) (some ctx.auth)
  | "params" :: parts => parts.foldl (fun cur p => cur.bind (member · p)) (some ctx.params)
  | _ => none

/-- What a `${…}` stands for; a bare name is one of the params. -/
def renderExpr (ctx : MutationContext) (expr : List Char) : List Char :=
  let space (c : Char) : Bool := c.isWhitespace
  let trimmed := ((expr.dropWhile space).reverse.dropWhile space).reverse
  let path := if '.' ∈ trimmed then trimmed else "params.".toList ++ trimmed
  match getByDottedPath ctx (String.ofList path) with
  | none | some .null => []
  | some value => (jsString value).toList

/-- The template with each `${…}` replaced; the number is a bound on its length. -/
def renderChars (ctx : MutationContext) : Nat → List Char → List Char
  | 0, cs => cs
  | _, [] => []
  | n + 1, '$' :: '{' :: rest =>
    let expr := rest.takeWhile (· ≠ '}')
    match expr, rest.drop expr.length with
    | _ :: _, '}' :: after => renderExpr ctx expr ++ renderChars ctx n after
    | _, _ => '$' :: renderChars ctx n ('{' :: rest)
  | n + 1, c :: rest => c :: renderChars ctx n rest

def renderTemplate (ctx : MutationContext) (template : String) : String :=
  String.ofList (renderChars ctx template.toList.length template.toList)

/-! ## Tables -/

inductive Scope
  /-- `scope: column`: the param of that name. -/
  | params (column : String)
  | auth (key column : String)

def Scope.column : Scope → String
  | .params column => column
  | .auth _ column => column

/-- The value of the context that the scope column is held against. -/
def Scope.value (scope : Scope) (ctx : MutationContext) : Option Json :=
  match scope with
  | .params column => field ctx.params column
  | .auth key _ => field ctx.auth key

/-- A function may answer `undefined`. -/
inductive StampSource
  | function (f : MutationContext → Option Json)
  | text (source : String)

def resolveStamp (ctx : MutationContext) : StampSource → Option Json
  | .function f => f ctx
  | .text source =>
    if source = "auth.userId" then field ctx.auth "userId"
    else if source = "auth.name" then field ctx.auth "name"
    else if '.' ∈ source.toList then getByDottedPath ctx source
    else some (.str source)

inductive ServerSetSource
  | function (f : MutationContext → Option Json)
  | value (value : Json)

def resolveServerSet (ctx : MutationContext) : ServerSetSource → Option Json
  | .function f => f ctx
  | .value value => some value

/-- A write rule sees the existing row and the payload. -/
inductive FieldPolicy
  | serverOnly
  | insertOnly
  | write (allow : MutationContext → Option Row → Row → Bool)

/-- The options of a table without writers of its own; hooks and policies are the application's. -/
structure TableOpts where
  pk : String
  scope : Scope
  rowId : Option String
  ownerStamp : List (String × StampSource)
  serverSet : List (String × ServerSetSource)
  /-- `policy.insert`, `policy.update` and `policy.delete`. -/
  policy : OpType → MutationContext → Option Row → Row → Bool
  fields : List (String × FieldPolicy)
  /-- The hook before a write: it may change the payload, or throw. -/
  before : OpType → MutationContext → Option Row → Row → Option Row
  /-- The columns of a new row that its insert does not name. -/
  defaults : Row

structure ResolvedOp where
  type : OpType
  rowId : String
  payload : Option Row

/-! ## Mutations -/

/-- `a === b`: two objects are never one. -/
def strictlyEqual (a b : Json) : Bool :=
  a = b && ! isReference a

/-- The scope column of a row or payload is the value of the context. -/
def scopeMatches (scope : Scope) (ctx : MutationContext) (row : Row) : Bool :=
  match scope.value ctx, row.lookup scope.column with
  | some value, some held => strictlyEqual held value
  | _, _ => false

/-- `payload[field] = value`; an undefined one is not written. -/
def setField (payload : Row) (field : String) (value : Option Json) : Row :=
  match value with
  | some value => payload.insert field value
  | none => payload.erase field

/-- The write-side field policies. -/
def applyFields (opts : TableOpts) (ctx : MutationContext) (op : OpType) (existing : Option Row)
    (payload : Row) : Row :=
  opts.fields.foldl (fun payload rule =>
    match rule.2 with
    | .serverOnly => payload.erase rule.1
    | .insertOnly => if op = .update then payload.erase rule.1 else payload
    | .write allow => if allow ctx existing payload then payload else payload.erase rule.1) payload

def applyStamps (opts : TableOpts) (ctx : MutationContext) (payload : Row) : Row :=
  opts.ownerStamp.foldl (fun payload stamp =>
    setField payload stamp.1 (resolveStamp ctx stamp.2)) payload

def applyServerSet (opts : TableOpts) (ctx : MutationContext) (payload : Row) : Row :=
  opts.serverSet.foldl (fun payload set =>
    setField payload set.1 (resolveServerSet ctx set.2)) payload

/-- The payload that reaches the adapter, or `none` if a guard, a policy or the hook throws. -/
def preparePayload (opts : TableOpts) (ctx : MutationContext) (op : ResolvedOp)
    (existing : Option Row) : Option Row :=
  let payload := if op.type = .delete then op.payload.getD ∅ else (op.payload.getD ∅).erase opts.pk
  if opts.rowId.any fun template => op.rowId ≠ renderTemplate ctx template then none
  else if op.type = .insert ∧ ¬ scopeMatches opts.scope ctx payload then none
  -- The existing row of an update or delete has to match the scope.
  else if existing.any fun row => ¬ scopeMatches opts.scope ctx row then none
  else if ¬ opts.policy op.type ctx existing payload then none
  else
    let payload :=
      if op.type = .delete then payload else applyFields opts ctx op.type existing payload
    let payload := if op.type = .insert then applyStamps opts ctx payload else payload
    let payload := if op.type = .delete then payload else applyServerSet opts ctx payload
    opts.before op.type ctx existing payload

/-- The row of an insert that finds none. -/
def newRow (opts : TableOpts) (rowId : String) (payload : Row) : Row :=
  payload.insert opts.pk (.str rowId) ∪ opts.defaults

/-- The adapter's upsert; a payload without columns leaves a row that is there. -/
def adapterInsert (opts : TableOpts) (db : Table String Row) (rowId : String) (payload : Row) :
    Table String Row :=
  match db rowId with
  | none => db.put rowId (newRow opts rowId payload)
  | some row => db.put rowId (payload ∪ row)

def adapterUpdate (db : Table String Row) (rowId : String) (payload : Row) : Table String Row :=
  match db rowId with
  | none => db
  | some row => db.put rowId (payload ∪ row)

/-- `mutate`, or `none` if it throws. -/
def mutate (opts : TableOpts) (db : Table String Row) (ctx : MutationContext) (op : ResolvedOp) :
    Option (Table String Row) :=
  let existing := if op.type = .insert then none else db op.rowId
  (preparePayload opts ctx op existing).map fun payload =>
    match op.type with
    | .delete => db.remove op.rowId
    | .update => adapterUpdate db op.rowId payload
    | .insert => adapterInsert opts db op.rowId payload

/-- A mutation; the database may refuse the write. -/
structure TableEvent where
  ctx : MutationContext
  op : ResolvedOp
  refused : Bool

/-- The mutations of contexts with one scope value; one that throws leaves the database. -/
def tableStep (opts : TableOpts) (v : Json) (db : Table String Row) (e : TableEvent) :
    Option (Table String Row) :=
  if opts.scope.value e.ctx = some v then
    some (if e.refused then db else (mutate opts db e.ctx e.op).getD db)
  else none

def tableMachine (opts : TableOpts) (v : Json) (db : Table String Row) :
    Machine (Table String Row) TableEvent :=
  ⟨db, tableStep opts v⟩

/-! ## Isolation -/

def InScope (opts : TableOpts) (v : Json) (row : Row) : Prop :=
  row.lookup opts.scope.column = some v

/-- What differs between the databases is in scope, before and after. -/
def StaysInScope (opts : TableOpts) (v : Json) (db db' : Table String Row) : Prop :=
  ∀ id, db' id ≠ db id →
    (∀ row, db id = some row → InScope opts v row) ∧ ∀ row, db' id = some row → InScope opts v row

/-- A whole run has left the rows of other scopes as they were at its start, and added none; each
next step that `G` admits stays in scope. -/
structure ScopeIsolated (opts : TableOpts) (v : Json)
    (G : Table String Row → TableEvent → Prop) (start db : Table String Row) : Prop where
  kept : ∀ id row, start id = some row → ¬ InScope opts v row → db id = some row
  none_created : ∀ id row, db id = some row → ¬ InScope opts v row → start id = some row
  steps : ∀ e db', G db e → tableStep opts v db e = some db' → StaysInScope opts v db db'

/-- An insert does not meet a row of another scope, and leaves the value in the scope column; an
update names no other value for it.  Both go by the payload that reaches the adapter. -/
def NamesScope (opts : TableOpts) (v : Json) (db : Table String Row) (e : TableEvent) : Prop :=
  match e.op.type with
  | .delete => True
  | .insert => ∀ payload, preparePayload opts e.ctx e.op none = some payload →
    match db e.op.rowId with
    | none => InScope opts v (newRow opts e.op.rowId payload)
    | some row => InScope opts v row ∧ InScope opts v (payload ∪ row)
  | .update => ∀ payload, preparePayload opts e.ctx e.op (db e.op.rowId) = some payload →
    (db e.op.rowId).isSome → ∀ w, payload.lookup opts.scope.column = some w → w = v

/-! ## One mutation -/

section Mutation

variable {opts : TableOpts} {v : Json} {db : Table String Row} {ctx : MutationContext}
  {op : ResolvedOp}

theorem inScope_of_matches (hv : opts.scope.value ctx = some v) {row : Row}
    (h : scopeMatches opts.scope ctx row = true) : InScope opts v row := by
  unfold scopeMatches at h
  split at h
  · rename_i value held hvalue hheld
    obtain rfl : value = v := Option.some.inj (hvalue.symm.trans hv)
    have heq : held = value := by
      have hboth : held = value ∧ isReference held = false := by simpa [strictlyEqual] using h
      exact hboth.1
    exact heq ▸ hheld
  · cases h

/-- A payload is prepared only for an existing row in scope. -/
theorem existing_inScope (hv : opts.scope.value ctx = some v) {row payload : Row}
    (h : preparePayload opts ctx op (some row) = some payload) : InScope opts v row := by
  apply inScope_of_matches hv
  by_contra hnot
  simp [preparePayload, hnot] at h

theorem staysInScope_refl (db : Table String Row) : StaysInScope opts v db db :=
  fun _ hne => absurd rfl hne

/-- A write to one row stays in scope if the row is in scope before and after. -/
theorem staysInScope_write (db : Table String Row) (rowId : String) (after : Option Row)
    (hbefore : ∀ row, db rowId = some row → InScope opts v row)
    (hafter : ∀ row, after = some row → InScope opts v row) :
    StaysInScope opts v db (db.write rowId after) := by
  intro id hne
  rw [Table.write_eq_update] at hne ⊢
  by_cases hid : id = rowId
  · subst hid
    exact ⟨hbefore, fun row hrow => hafter row (by simpa using hrow)⟩
  · simp [hid] at hne

theorem mutate_staysInScope (hv : opts.scope.value ctx = some v) {refused : Bool}
    (hnames : NamesScope opts v db ⟨ctx, op, refused⟩) {db' : Table String Row}
    (h : mutate opts db ctx op = some db') : StaysInScope opts v db db' := by
  unfold mutate at h
  obtain ⟨payload, hpayload, rfl⟩ := Option.map_eq_some_iff.1 h
  unfold NamesScope at hnames
  cases hkind : op.type with
  | delete =>
      simp only [hkind, reduceCtorEq, if_false] at hpayload
      refine staysInScope_write db op.rowId none (fun row hrow => ?_) (by simp)
      rw [hrow] at hpayload
      exact existing_inScope hv hpayload
  | update =>
      simp only [hkind, reduceCtorEq, if_false] at hpayload hnames
      cases hrow : db op.rowId with
      | none => simpa [adapterUpdate, hrow] using staysInScope_refl db
      | some row =>
          have hin : InScope opts v row := existing_inScope hv (hrow ▸ hpayload)
          have hscope := hnames payload hpayload (by simp [hrow])
          -- The payload names the value or leaves it.
          have hafter : InScope opts v (payload ∪ row) := by
            cases hc : payload.lookup opts.scope.column with
            | none => exact (AList.lookup_union_right (AList.lookup_eq_none.1 hc)).trans hin
            | some w => exact AList.lookup_union_eq_some.2 (Or.inl (hscope w hc ▸ hc))
          have hwrite := staysInScope_write db op.rowId (some (payload ∪ row))
            (fun other hother => Option.some.inj (hrow.symm.trans hother) ▸ hin)
            (fun other hother => Option.some.inj hother ▸ hafter)
          simpa [adapterUpdate, hrow, Table.write] using hwrite
  | insert =>
      simp only [hkind, if_true] at hpayload hnames
      have hscope := hnames payload hpayload
      cases hrow : db op.rowId with
      | none =>
          rw [hrow] at hscope
          have hwrite := staysInScope_write db op.rowId
            (some (newRow opts op.rowId payload)) (by simp [hrow])
            (fun other hother => Option.some.inj hother ▸ hscope)
          simpa [adapterInsert, hrow, Table.write] using hwrite
      | some row =>
          rw [hrow] at hscope
          have hwrite := staysInScope_write db op.rowId (some (payload ∪ row))
            (fun other hother => Option.some.inj (hrow.symm.trans hother) ▸ hscope.1)
            (fun other hother => Option.some.inj hother ▸ hscope.2)
          simpa [adapterInsert, hrow, Table.write] using hwrite

theorem tableStep_staysInScope {e : TableEvent} (hnames : NamesScope opts v db e)
    {db' : Table String Row} (h : tableStep opts v db e = some db') :
    StaysInScope opts v db db' := by
  unfold tableStep at h
  split at h
  · rename_i hv
    obtain rfl := Option.some.inj h
    by_cases hrefused : e.refused = true
    · simpa [hrefused] using staysInScope_refl db
    · cases hmutate : mutate opts db e.ctx e.op with
      | none => simpa [hrefused, hmutate] using staysInScope_refl db
      | some after =>
          simpa [hrefused, hmutate] using mutate_staysInScope hv hnames hmutate
  · cases h

/-- Where the condition fails, a mutation that goes through has a row of another scope before it or
after it. -/
theorem outOfScope_of_not_namesScope {refused : Bool}
    (hnames : ¬ NamesScope opts v db ⟨ctx, op, refused⟩) {db' : Table String Row}
    (h : mutate opts db ctx op = some db') :
    ∃ row, (db op.rowId = some row ∨ db' op.rowId = some row) ∧ ¬ InScope opts v row := by
  unfold mutate at h
  obtain ⟨payload, hpayload, rfl⟩ := Option.map_eq_some_iff.1 h
  unfold NamesScope at hnames
  cases hkind : op.type with
  | delete => simp [hkind] at hnames
  | update =>
      simp only [hkind, reduceCtorEq, if_false] at hpayload hnames
      -- There is a row, and the payload names another value for it.
      have hother : ∃ row w, db op.rowId = some row ∧
          payload.lookup opts.scope.column = some w ∧ w ≠ v := by
        by_contra hall
        refine hnames fun payload' hpayload' hsome w hw => ?_
        obtain rfl : payload = payload' := Option.some.inj (hpayload.symm.trans hpayload')
        obtain ⟨row, hrow⟩ := Option.isSome_iff_exists.1 hsome
        by_contra hne
        exact hall ⟨row, w, hrow, hw, hne⟩
      obtain ⟨row, w, hrow, hw, hne⟩ := hother
      refine ⟨payload ∪ row, Or.inr (by simp [adapterUpdate, hrow, Table.put]), fun hin => hne ?_⟩
      exact Option.some.inj ((AList.lookup_union_eq_some.2 (Or.inl hw)).symm.trans hin)
  | insert =>
      simp only [hkind, if_true] at hpayload hnames
      cases hrow : db op.rowId with
      | none =>
          refine ⟨newRow opts op.rowId payload, Or.inr ?_, fun hin => hnames ?_⟩
          · simp [adapterInsert, hrow, Table.put]
          · intro payload' hpayload'
            obtain rfl : payload = payload' := Option.some.inj (hpayload.symm.trans hpayload')
            simpa [hrow] using hin
      | some row =>
          by_cases hin : InScope opts v row
          · refine ⟨payload ∪ row, Or.inr ?_, fun hafter => hnames ?_⟩
            · simp [adapterInsert, hrow, Table.put]
            · intro payload' hpayload'
              obtain rfl : payload = payload' := Option.some.inj (hpayload.symm.trans hpayload')
              simpa [hrow] using ⟨hin, hafter⟩
          · exact ⟨row, Or.inl rfl, hin⟩

end Mutation

/-! ## Runs -/

/-- `scope: "org"`, without policies, stamps or hooks. -/
def byOrg : TableOpts :=
  ⟨"id", .params "org", none, [], [], fun _ _ _ _ => true, [], fun _ _ _ payload => some payload, ∅⟩

def orgRow (org : String) : Row :=
  (∅ : Row).insert "org" (.str org)

/-- An insert by a member of the organisation `a`. -/
def insertRow (id : String) : TableEvent :=
  ⟨⟨.null, .obj (.cons "org" (.str "a") .nil)⟩, ⟨.insert, id, some (orgRow "a")⟩, false⟩

def orgTable : Table String Row := fun id =>
  if id = "t1" then some (orgRow "b") else none

end Server
end Reflectdb
