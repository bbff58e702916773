import Reflectdb.Core.Text
import Reflectdb.Lib.Myers

/-!
# Text diff — what `diffText` finds turns the one text into the other

The arrays of the search hold the furthest points of each round, so its edits are those of a path
through the two middles.  The hunks are built along that path.
-/

namespace Reflectdb
namespace Core

open Lib

theorem commonHead_eq (a b : List UInt16) : commonHead a b = commonPrefix a b := by
  induction a generalizing b with
  | nil => rfl
  | cons c a ih =>
      cases b with
      | nil => rfl
      | cons d b => rw [commonHead, commonPrefix, ih]

/-! ## The search -/

namespace Search

variable {s : Search} {v : Array Int} {d : Nat} {k : Int}

theorem mem_diagonals : k ∈ diagonals d ↔ Diagonal d k := by
  have hmem : k ∈ diagonals d ↔ ∃ i : Nat, i < d + 1 ∧ -(d : Int) + 2 * i = k := by
    simp [diagonals]
  rw [hmem, Diagonal]
  constructor
  · rintro ⟨i, hi, rfl⟩
    omega
  · rintro ⟨hlow, hhigh, hparity⟩
    exact ⟨((k + d) / 2).toNat, by omega, by omega⟩

theorem down_iff : s.down v d k = true ↔ GoesDown (s.at_ v) d k := by
  simp [down, GoesDown]

theorem furthest_eq : s.furthest v d k = slide s.old s.new (entry (s.at_ v) d k) k := by
  simp only [furthest, slide, entry, commonHead_eq]
  by_cases h : s.down v d k = true
  · rw [if_pos h, if_pos (down_iff.1 h)]
  · rw [if_neg h, if_neg fun hdown => h (down_iff.2 hdown)]

/-- The array before round `d` holds what the round before has found. -/
def Before (s : Search) (v : Array Int) : Nat → Prop
  | 0 => ∀ k, s.at_ v k = 0
  | d + 1 => ∀ k, Diagonal d k → s.at_ v k = Lib.furthest s.old s.new d k

theorem goesDown_congr {prev prev' : Int → Int} (hdiag : Diagonal (d + 1) k)
    (h : ∀ k', Diagonal d k' → prev k' = prev' k') :
    GoesDown prev (d + 1) k ↔ GoesDown prev' (d + 1) k := by
  by_cases hlow : k = -((d + 1 : Nat) : Int)
  · exact ⟨fun _ => Or.inl hlow, fun _ => Or.inl hlow⟩
  · by_cases hhigh : k = ((d + 1 : Nat) : Int)
    · simp [GoesDown, hhigh]
    · have hleft : Diagonal d (k - 1) := by
        unfold Diagonal at *
        omega
      have hright : Diagonal d (k + 1) := by
        unfold Diagonal at *
        omega
      rw [GoesDown, GoesDown, h _ hleft, h _ hright]

theorem Before.furthest (h : Before s v d) (hdiag : Diagonal d k) :
    s.furthest v d k = Lib.furthest s.old s.new d k := by
  rw [furthest_eq]
  cases d with
  | zero =>
      have hprev : s.at_ v = fun _ => 0 := funext h
      rw [hprev]
      rfl
  | succ d =>
      rw [furthest_succ]
      congr 1
      have hcongr := goesDown_congr hdiag h
      by_cases hdown : GoesDown (s.at_ v) (d + 1) k
      · rw [entry, entry, if_pos hdown, if_pos (hcongr.1 hdown), h _ (hdiag.down hdown)]
      · rw [entry, entry, if_neg hdown, if_neg fun hd => hdown (hcongr.2 hd),
          h _ (hdiag.right hdown)]

/-- Writes at distinct places. -/
theorem getD_foldl_set {place : Int → Nat} {f : Int → Int} {ks : List Int}
    (hinj : ∀ k ∈ ks, ∀ k' ∈ ks, place k = place k' → k = k')
    (hin : ∀ k ∈ ks, place k < v.size) (hk : k ∈ ks) :
    (ks.foldl (fun next k => next.setIfInBounds (place k) (f k)) v).getD (place k) 0 = f k := by
  induction ks using List.reverseRecOn with
  | nil => cases hk
  | append_singleton ks k' ih =>
      have hsize : ∀ (ks : List Int),
          (ks.foldl (fun next k => next.setIfInBounds (place k) (f k)) v).size = v.size := by
        intro ks
        induction ks using List.reverseRecOn with
        | nil => rfl
        | append_singleton ks k ih => simp [ih]
      have hbound : place k < v.size := hin k hk
      rw [List.foldl_append, List.foldl_cons, List.foldl_nil, Array.getD_eq_getD_getElem?,
        Array.getElem?_setIfInBounds]
      by_cases heq : place k' = place k
      · have hkk : k' = k := hinj k' (by simp) k hk heq
        subst hkk
        simp [hsize, hbound]
      · rw [if_neg heq, ← Array.getD_eq_getD_getElem?]
        have hmem : k ∈ ks := by
          rcases List.mem_append.1 hk with hold | hnew
          · exact hold
          · have : k = k' := by simpa using hnew
            exact absurd (congrArg place this.symm) heq
        exact ih (fun a ha b hb => hinj a (by simp [ha]) b (by simp [hb]))
          (fun a ha => hin a (by simp [ha])) hmem

theorem size_round : (s.round v d).size = v.size := by
  unfold round
  induction diagonals d using List.reverseRecOn with
  | nil => rfl
  | append_singleton ks k ih => simp [ih]

theorem Before.round (h : Before s v d) (hd : d ≤ s.limit) (hsize : v.size = 2 * s.limit + 3) :
    Before s (s.round v d) (d + 1) := by
  intro k hdiag
  have hplace : ∀ k ∈ diagonals d, 0 ≤ (s.limit : Int) + 1 + k ∧
      ((s.limit : Int) + 1 + k).toNat < v.size := by
    intro k hk
    have hk' := mem_diagonals.1 hk
    unfold Diagonal at hk'
    omega
  rw [at_, Search.round, getD_foldl_set (f := s.furthest v d) ?_ (fun k hk => (hplace k hk).2)
    (mem_diagonals.2 hdiag), h.furthest hdiag]
  intro a ha b hb heq
  have hpa := (hplace a ha).1
  have hpb := (hplace b hb).1
  omega

theorem Before.reaches (h : Before s v d) :
    s.reaches v d = true ↔ ReachesEnds s.old s.new d := by
  simp only [Search.reaches, List.any_eq_true, decide_eq_true_eq]
  constructor
  · rintro ⟨k, hk, hx, hy⟩
    rw [h.furthest (mem_diagonals.1 hk)] at hx hy
    exact ⟨k, mem_diagonals.1 hk, hx, hy⟩
  · rintro ⟨k, hk, hx, hy⟩
    refine ⟨k, mem_diagonals.2 hk, ?_⟩
    rw [h.furthest hk]
    exact ⟨hx, hy⟩

/-- The trace holds what each round was given. -/
def Traced (s : Search) (trace : List (Array Int)) (d : Nat) : Prop :=
  ∀ j < d, Before s (trace.getD j #[]) j

theorem Traced.concat {trace : List (Array Int)} (h : Traced s trace d) (hlen : trace.length = d)
    (hv : Before s v d) : Traced s (trace ++ [v]) (d + 1) := by
  intro j hj
  rcases Nat.lt_or_eq_of_le (Nat.le_of_lt_succ hj) with hlt | rfl
  · have hget : (trace ++ [v]).getD j #[] = trace.getD j #[] := by
      simp [List.getD_eq_getElem?_getD, List.getElem?_append_left (hlen ▸ hlt)]
    rw [hget]
    exact h j hlt
  · have hget : (trace ++ [v]).getD j #[] = v := by
      simp [List.getD_eq_getElem?_getD, ← hlen]
    rw [hget]
    exact hv

/-- The rounds end with the first that reaches both ends. -/
theorem rounds_spec {fuel : Nat} {trace : List (Array Int)} {found : Nat × List (Array Int)}
    (hfuel : d + fuel ≤ s.limit + 1) (hsize : v.size = 2 * s.limit + 3) (hlen : trace.length = d)
    (hbefore : Before s v d) (htrace : Traced s trace d)
    (hfirst : ∀ j < d, ¬ ReachesEnds s.old s.new j)
    (h : s.rounds fuel d v trace = some found) :
    ReachesEnds s.old s.new found.1 ∧ (∀ j < found.1, ¬ ReachesEnds s.old s.new j) ∧
      Traced s found.2 (found.1 + 1) := by
  induction fuel generalizing d v trace with
  | zero => cases h
  | succ fuel ih =>
      rw [rounds] at h
      split at h
      · rename_i hreach
        cases h
        exact ⟨hbefore.reaches.1 hreach, hfirst, htrace.concat hlen hbefore⟩
      · rename_i hreach
        refine ih (by omega) (by rw [size_round, hsize]) (by simp [hlen])
          (hbefore.round (by omega) hsize) (htrace.concat hlen hbefore) ?_ h
        intro j hj
        rcases Nat.lt_or_eq_of_le (Nat.le_of_lt_succ hj) with hlt | rfl
        · exact hfirst j hlt
        · exact fun hends => hreach (hbefore.reaches.2 hends)

/-- The walk back through the trace. -/
theorem walkBack_eq {trace : List (Array Int)} {x y : Int} (htrace : Traced s trace (d + 1))
    (hdiag : Diagonal d (x - y)) :
    s.walkBack trace d x y = backtrack s.old s.new Edit.del Edit.ins d x y := by
  induction d generalizing x y with
  | zero => rfl
  | succ d ih =>
      have hbefore : ∀ k, Diagonal d k →
          s.at_ (trace.getD (d + 1) #[]) k = Lib.furthest s.old s.new d k :=
        htrace (d + 1) (Nat.lt_succ_self _)
      have htrace' : Traced s trace (d + 1) := fun j hj => htrace j (by omega)
      have hcongr := goesDown_congr hdiag hbefore
      rw [walkBack, backtrack]
      by_cases hdown : s.down (trace.getD (d + 1) #[]) (d + 1) (x - y) = true
      · have hk := hdiag.down (down_iff.1 hdown)
        simp only [hdown, if_true, if_pos (hcongr.1 (down_iff.1 hdown)), hbefore _ hk]
        rw [ih htrace' (by rwa [Int.sub_sub_self])]
      · have hgoes : ¬ GoesDown (s.at_ (trace.getD (d + 1) #[])) (d + 1) (x - y) := fun hd =>
          hdown (down_iff.2 hd)
        have hk := hdiag.right hgoes
        simp only [if_neg hdown, if_neg fun hd => hgoes (hcongr.2 hd), hbefore _ hk]
        rw [ih htrace' (by rwa [Int.sub_sub_self])]

/-- The edits are those of a path to the ends of both middles. -/
theorem edits_path {es : List Edit} (h : s.edits = some es) :
    EditPath Edit.del Edit.ins s.old s.new es s.old.length s.new.length := by
  rw [edits, Option.map_eq_some_iff] at h
  rcases h with ⟨⟨d, trace⟩, hrounds, rfl⟩
  have hzero : Before s (Array.replicate (2 * s.limit + 3) 0) 0 := by
    intro k
    rw [at_, Array.getD_eq_getD_getElem?, Array.getElem?_replicate]
    split <;> rfl
  have hnone : Traced s [] 0 := fun j hj => absurd hj (Nat.not_lt_zero j)
  obtain ⟨hreach, hfirst, htrace⟩ := rounds_spec (Nat.le_of_eq (Nat.zero_add _)) (by simp) rfl hzero
    hnone (fun j hj => absurd hj (Nat.not_lt_zero j)) hrounds
  have hdiag : Diagonal d (s.old.length - s.new.length) := by
    obtain ⟨k, hk, hx, hy⟩ := hreach
    rcases corner_of_first hfirst hk hx hy with ⟨hxEnd, hyEnd⟩
    have heq : (s.old.length : Int) - s.new.length = k := by omega
    rwa [heq]
  rw [walkBack_eq htrace hdiag]
  exact path_of_first Edit.del Edit.ins hreach hfirst

end Search

/-! ## The hunks -/

section Hunks

variable {γ : Type} {unit : γ → UInt16} {a b : List γ}

/-- The hunks turn what `a` has before `x` into what `b` has before `y`. -/
structure TurnsInto (unit : γ → UInt16) (a b : List γ) (hunks : List (TextHunk γ)) (x y : Nat) :
    Prop where
  spaced : Hunk.Spaced x hunks
  output : (Hunk.output a 0 hunks ++ slice a (Hunk.reached 0 hunks) x).map unit =
    (b.map unit).take y

/-- A hunk that goes on at `x`, behind the closed ones. -/
structure OpenAt (unit : γ → UInt16) (a b : List γ) (closed : List (TextHunk γ))
    (cur : TextHunk γ) (x y : Nat) : Prop where
  spaced : Hunk.Spaced x closed
  before : ∀ h ∈ closed, h.stop < cur.start
  start : cur.start ≤ x
  stop : cur.stop = x
  output : (Hunk.output a 0 closed ++ slice a (Hunk.reached 0 closed) cur.start ++
    cur.insert).map unit = (b.map unit).take y

theorem slice_map (f : γ → UInt16) (text : List γ) (i j : Nat) :
    (slice text i j).map f = slice (text.map f) i j := by
  rw [slice, slice, List.map_take, List.map_drop]

theorem slice_self (text : List γ) (i : Nat) : slice text i i = [] := by
  simp [slice]

theorem slice_succ {text : List γ} {i j : Nat} (hij : i ≤ j) {c : γ} (hc : text[j]? = some c) :
    slice text i (j + 1) = slice text i j ++ [c] := by
  have hlen : j + 1 - i = j - i + 1 := by omega
  have hget : (text.drop i)[j - i]? = some c := by
    rw [List.getElem?_drop, Nat.add_sub_cancel' hij, hc]
  rw [slice, slice, hlen, List.take_add_one, hget]
  rfl

theorem take_succ_of_getElem? {text : List γ} {j : Nat} {c : γ} (hc : text[j]? = some c) :
    text.take (j + 1) = text.take j ++ [c] := by
  rw [List.take_add_one, hc]
  rfl

/-- An element in common is kept. -/
theorem TurnsInto.keep {hunks : List (TextHunk γ)} {x y : Nat}
    (h : TurnsInto unit a b hunks x y) {c : UInt16} (ha : (a.map unit)[x]? = some c)
    (hb : (b.map unit)[y]? = some c) : TurnsInto unit a b hunks (x + 1) (y + 1) := by
  refine ⟨h.spaced.mono (Nat.le_succ x), ?_⟩
  rw [take_succ_of_getElem? hb, ← h.output, List.map_append, List.map_append, slice_map, slice_map,
    slice_succ h.spaced.reached_le ha, List.append_assoc]

/-- The hunk that an edit at `x` goes on with, and the hunks before it. -/
def opened (x : Nat) (hunks : List (TextHunk γ)) : List (TextHunk γ) × TextHunk γ :=
  match hunks.getLast? with
  | some cur => if cur.stop = x then (hunks.dropLast, cur) else (hunks, ⟨x, x, []⟩)
  | none => ([], ⟨x, x, []⟩)

theorem addEdit_del (head x y : Nat) (hunks : List (TextHunk γ)) :
    addEdit head b hunks (.del x y) = (opened (head + x) hunks).1 ++
      [{ (opened (head + x) hunks).2 with stop := head + x + 1 }] :=
  rfl

theorem addEdit_ins (head x y : Nat) (hunks : List (TextHunk γ)) :
    addEdit head b hunks (.ins x y) = (opened (head + x) hunks).1 ++
      [{ (opened (head + x) hunks).2 with
        insert := (opened (head + x) hunks).2.insert ++ (b.drop (head + y)).take 1 }] :=
  rfl

theorem TurnsInto.opened {hunks : List (TextHunk γ)} {x y : Nat}
    (h : TurnsInto unit a b hunks x y) :
    OpenAt unit a b (opened x hunks).1 (opened x hunks).2 x y := by
  have houtput := h.output
  rcases List.eq_nil_or_concat' hunks with rfl | ⟨closed, cur, rfl⟩
  · exact ⟨Hunk.Spaced.nil, by simp [Core.opened], le_refl x, rfl,
      by simpa [Core.opened] using houtput⟩
  · rw [Hunk.reached_concat] at houtput
    by_cases hstop : cur.stop = x
    · obtain ⟨hspaced, hbefore, hwithin, _⟩ := h.spaced.of_concat
      have hopened : Core.opened x (closed ++ [cur]) = (closed, cur) := by
        simp [Core.opened, hstop]
      rw [hstop, slice_self, List.append_nil, Hunk.output_concat] at houtput
      rw [hopened]
      exact ⟨hspaced, hbefore, hwithin.1.trans hwithin.2, hstop, houtput⟩
    · have hopened : Core.opened x (closed ++ [cur]) = (closed ++ [cur], ⟨x, x, []⟩) := by
        simp [Core.opened, hstop]
      have hlast : cur.stop ≤ x := (h.spaced.within cur (by simp)).2
      rw [hopened]
      refine ⟨h.spaced, fun z hz => ?_, le_refl x, rfl, ?_⟩
      · -- The last hunk stops before `x`, and the others before it starts.
        rcases List.mem_append.1 hz with hold | hnew
        · have hlt := h.spaced.of_concat.2.1 z hold
          have hle := (h.spaced.within cur (by simp)).1
          show z.stop < x
          omega
        · obtain rfl : z = cur := by simpa using hnew
          exact lt_of_le_of_ne hlast hstop
      · rw [Hunk.reached_concat]
        simpa using houtput

theorem TurnsInto.del {hunks : List (TextHunk γ)} {head x y : Nat}
    (h : TurnsInto unit a b hunks (head + x) (head + y)) :
    TurnsInto unit a b (addEdit head b hunks (.del x y)) (head + x + 1) (head + y) := by
  have hopen := h.opened
  rw [addEdit_del]
  generalize Core.opened (head + x) hunks = o at hopen ⊢
  have hstart := hopen.start
  refine ⟨(hopen.spaced.mono (Nat.le_succ _)).concat hopen.before ⟨by simp; omega, le_refl _⟩
    (Or.inl (by simp; omega)), ?_⟩
  rw [Hunk.output_concat, Hunk.reached_concat, slice_self, List.append_nil]
  exact hopen.output

theorem TurnsInto.ins {hunks : List (TextHunk γ)} {head x y : Nat}
    (h : TurnsInto unit a b hunks (head + x) (head + y)) (hy : head + y < b.length) :
    TurnsInto unit a b (addEdit head b hunks (.ins x y)) (head + x) (head + y + 1) := by
  have hopen := h.opened
  rw [addEdit_ins]
  generalize Core.opened (head + x) hunks = o at hopen ⊢
  have hstart := hopen.start
  have hstop := hopen.stop
  have htake : (b.drop (head + y)).take 1 = [b[head + y]] := by
    rw [List.drop_eq_getElem_cons hy]
    rfl
  have hget : (b.map unit)[head + y]? = some (unit b[head + y]) := by
    rw [List.getElem?_map, List.getElem?_eq_getElem hy]
    rfl
  rw [htake]
  refine ⟨hopen.spaced.concat hopen.before ⟨?_, ?_⟩ (Or.inr (by simp)), ?_⟩
  · simp only [hstop]
    exact hstart
  · simp only [hstop]
    exact le_refl _
  · rw [Hunk.output_concat, Hunk.reached_concat, hstop, slice_self, List.append_nil,
      take_succ_of_getElem? hget, ← hopen.output]
    simp

/-- The hunks that are built along a path. -/
theorem turnsInto_of_path {head n m : Nat} (hhead : (a.map unit).take head = (b.map unit).take head)
    {es : List Edit} {x y : Nat}
    (hpath : EditPath Edit.del Edit.ins (((a.map unit).drop head).take n)
      (((b.map unit).drop head).take m) es x y) :
    TurnsInto unit a b (es.foldl (addEdit head b) []) (head + x) (head + y) := by
  induction hpath with
  | start =>
      refine ⟨Hunk.Spaced.nil, ?_⟩
      simp [Hunk.output, Hunk.reached, slice, hhead]
  | keep _ hold hnew ih =>
      have hget : ∀ {t : List UInt16} {j k : Nat} {c : UInt16},
          ((t.drop head).take k)[j]? = some c → t[head + j]? = some c := by
        intro t j k c h
        rw [List.getElem?_take] at h
        split at h
        · rwa [List.getElem?_drop] at h
        · cases h
      exact ih.keep (hget hold) (hget hnew)
  | del _ _ ih =>
      rw [List.foldl_append]
      exact ih.del
  | ins _ hy ih =>
      rw [List.foldl_append]
      refine ih.ins ?_
      simp only [List.length_take, List.length_drop, List.length_map] at hy
      omega

/-! ## The diff -/

theorem take_commonHead {s t : List UInt16} {j : Nat} (h : j ≤ commonHead s t) :
    s.take j = t.take j := by
  rw [commonHead_eq] at h
  induction j with
  | zero => rfl
  | succ j ih =>
      obtain ⟨c, hs, ht⟩ := getElem?_of_lt_commonPrefix h
      rw [take_succ_of_getElem? hs, take_succ_of_getElem? ht, ih (by omega)]

theorem drop_commonHead_reverse {s t : List UInt16} {j : Nat}
    (h : j ≤ commonHead s.reverse t.reverse) :
    s.drop (s.length - j) = t.drop (t.length - j) := by
  have htake := take_commonHead h
  rwa [List.take_reverse, List.take_reverse, List.reverse_inj] at htake

/-- Hunks up to a common end turn the one text into the other. -/
theorem TurnsInto.applyHunks {hunks : List (TextHunk γ)} {x y : Nat}
    (h : TurnsInto unit a b hunks x y) (htail : (a.map unit).drop x = (b.map unit).drop y) :
    (applyHunks a hunks).map unit = b.map unit := by
  have hsplit : a.drop (Hunk.reached 0 hunks) = slice a (Hunk.reached 0 hunks) x ++ a.drop x :=
    (Hunk.slice_append_drop h.spaced.reached_le).symm
  calc (Core.applyHunks a hunks).map unit
      = (Hunk.output a 0 hunks ++ slice a (Hunk.reached 0 hunks) x).map unit ++
          (a.map unit).drop x := by
        rw [Core.applyHunks, Hunk.apply, Hunk.applyFrom_eq, hsplit, ← List.append_assoc,
          List.map_append, List.map_drop]
    _ = b.map unit := by rw [h.output, htail, List.take_append_drop]

/-- Replacing the middle as a whole. -/
theorem turnsInto_whole {head n m : Nat} (hhead : (a.map unit).take head = (b.map unit).take head)
    (hm : head + m ≤ b.length) (hne : n ≠ 0 ∨ m ≠ 0) :
    TurnsInto unit a b [⟨head, head + n, slice b head (head + m)⟩] (head + n) (head + m) := by
  refine ⟨⟨by simp, by simp, ?_⟩, ?_⟩
  · simp only [List.mem_singleton, forall_eq]
    rcases hne with hn | hm'
    · exact Or.inl (by omega)
    · right
      intro hnil
      have hlength := congrArg List.length hnil
      simp [slice] at hlength
      omega
  · have hsplit : (b.map unit).take head ++ slice (b.map unit) head (head + m) =
        (b.map unit).take (head + m) := by
      rw [slice, Nat.add_sub_cancel_left, List.take_add]
    have hbegin : slice (a.map unit) 0 head = (b.map unit).take head := by
      simpa [slice] using hhead
    simp only [Hunk.output, Hunk.reached, slice_self, List.append_nil, List.map_append, slice_map,
      hbegin, hsplit]

/-- The hunks of a diff lie apart, and turn the one text into the other as far as the code sees. -/
theorem diffText_spec (unit : γ → UInt16) (a b : List γ) :
    Hunk.Spaced a.length (diffText unit a b) ∧
      (applyHunks a (diffText unit a b)).map unit = b.map unit := by
  rw [diffText]
  split
  · rename_i hsame
    exact ⟨Hunk.Spaced.nil, by simpa [sameText, applyHunks, Hunk.apply, Hunk.applyFrom] using hsame⟩
  · rename_i hdiff
    have hdiff' : a.map unit ≠ b.map unit := by simpa [sameText] using hdiff
    dsimp only
    generalize hheadEq : commonHead (a.map unit) (b.map unit) = head
    generalize htailEq : min (commonHead (a.map unit).reverse (b.map unit).reverse)
      (min a.length b.length - head) = tail
    generalize hnEq : a.length - head - tail = n
    generalize hmEq : b.length - head - tail = m
    have hheadLe := commonPrefix_le (a.map unit) (b.map unit)
    rw [← commonHead_eq, hheadEq, List.length_map, List.length_map] at hheadLe
    have hhead : (a.map unit).take head = (b.map unit).take head := take_commonHead hheadEq.ge
    have htail := drop_commonHead_reverse (s := a.map unit) (t := b.map unit) (j := tail)
      (by omega)
    rw [List.length_map, List.length_map] at htail
    have hx : a.length - tail = head + n := by omega
    have hy : b.length - tail = head + m := by omega
    rw [hx, hy] at htail
    have hne : n ≠ 0 ∨ m ≠ 0 := by
      by_contra hzero
      have hn : n = 0 := by omega
      have hm : m = 0 := by omega
      rw [hn, hm, Nat.add_zero] at htail
      refine hdiff' ?_
      rw [← List.take_append_drop head (a.map unit), hhead, htail, List.take_append_drop]
    have hwhole := turnsInto_whole (n := n) (m := m) hhead (by omega) hne
    have hdone : ∀ {hunks : List (TextHunk γ)}, TurnsInto unit a b hunks (head + n) (head + m) →
        Hunk.Spaced a.length hunks ∧ (applyHunks a hunks).map unit = b.map unit := fun h =>
      ⟨h.spaced.mono (by omega), h.applyHunks htail⟩
    split
    · exact hdone hwhole
    · split
      · exact hdone hwhole
      · rename_i es hedits
        have hpath := Search.edits_path hedits
        simp only [List.length_take, List.length_drop, List.length_map] at hpath
        have hnLen : min n (a.length - head) = n := by omega
        have hmLen : min m (b.length - head) = m := by omega
        rw [hnLen, hmLen] at hpath
        exact hdone (turnsInto_of_path hhead hpath)

end Hunks

end Core
end Reflectdb
