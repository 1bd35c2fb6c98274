import TraxMania.Lib.PyText
import TraxMania.Lib.SortBy
import Mathlib.Data.Char
import Mathlib.Data.List.Lex

/-
  `ingestion/cache.py`: the bodies of responses, in files named by a digest of the request. The text
  that is hashed joins names and values with separators that it does not escape, so that only few
  requests have a text of their own (`hashed_unique_iff`).
-/

namespace TraxMania.Ingestion.Http

open Lib.PyText Lib.SortBy

/-! ## Requests -/

/-- A GET request: the url, and the `params` with the `str` of their names and values. -/
structure Request where
  url : Text
  params : List (Text × Text)
  nodup : (params.map Prod.fst).Nodup

namespace Request

/-- The same url and the same mapping, whatever the order of its entries. -/
def Same (r r' : Request) : Prop := r.url = r'.url ∧ r.params.Perm r'.params

def LineFree (r : Request) : Prop := '\n' ∉ r.url

instance : DecidablePred LineFree := fun r => inferInstanceAs (Decidable ('\n' ∉ r.url))

end Request

/-- `f"{k}={v}"`. -/
def part (kv : Text × Text) : Text := kv.1 ++ '=' :: kv.2

/-- `canonical`. -/
def canonical (params : List (Text × Text)) : Text :=
  if params = [] then [] else ['&'].intercalate ((sortBy toLex params).map part)

/-- `f"{method.upper()}\n{url}\n{canonical}"` for the method `GET`. -/
def hashed (r : Request) : Text :=
  "GET".toList ++ '\n' :: (r.url ++ '\n' :: canonical r.params)

/-! ## Files -/

/-- A response body. -/
abbrev Body := List UInt8

/-- `_path_for(key)`, below the root. -/
def pathFor (key : Text) : Text × Text := (key.take 2, key)

/-- The files of a `ResponseCache`. -/
abbrev ResponseCache := Text × Text → Option Body

/-- `get(key)`. -/
def ResponseCache.get (cache : ResponseCache) (key : Text) : Option Body := cache (pathFor key)

/-- `put(key, data)`. -/
def ResponseCache.put (cache : ResponseCache) (key : Text) (data : Body) : ResponseCache :=
  Function.update cache (pathFor key) (some data)

theorem pathFor_injective : Function.Injective pathFor := fun _ _ h => (Prod.mk.inj h).2

theorem ResponseCache.get_put (cache : ResponseCache) (key key' : Text) (data : Body) :
    (cache.put key data).get key' = if key' = key then some data else cache.get key' := by
  unfold ResponseCache.get ResponseCache.put
  by_cases h : key' = key
  · rw [if_pos h, h, Function.update_self]
  · rw [if_neg h, Function.update_of_ne fun he => h (pathFor_injective he)]

/-! ## Texts with a separator -/

/-- Two texts cut at their first separator. -/
theorem cut_inj {α : Type*} {sep : α} {a b x y : List α} (ha : sep ∉ a) (hb : sep ∉ b)
    (h : a ++ sep :: x = b ++ sep :: y) : a = b ∧ x = y := by
  induction a generalizing b with
  | nil =>
    cases b with
    | nil => exact ⟨rfl, (List.cons.inj h).2⟩
    | cons d b =>
      obtain rfl := (List.cons.inj h).1
      exact absurd List.mem_cons_self hb
  | cons c a ih =>
    cases b with
    | nil =>
      obtain rfl := (List.cons.inj h).1
      exact absurd List.mem_cons_self ha
    | cons d b =>
      obtain ⟨rfl, hrest⟩ := List.cons.inj h
      obtain ⟨rfl, rfl⟩ := ih (fun hm => ha (List.mem_cons_of_mem _ hm))
        (fun hm => hb (List.mem_cons_of_mem _ hm)) hrest
      exact ⟨rfl, rfl⟩

theorem hashed_eq_iff {r r' : Request} (hr : r.LineFree) (hr' : r'.LineFree) :
    hashed r = hashed r' ↔ r.url = r'.url ∧ canonical r.params = canonical r'.params := by
  constructor
  · intro h
    have hrest := (List.cons.inj (List.append_cancel_left h)).2
    exact cut_inj hr hr' hrest
  · intro h
    unfold hashed
    rw [h.1, h.2]

theorem canonical_singleton (kv : Text × Text) : canonical [kv] = part kv := by
  unfold canonical
  rw [if_neg (List.cons_ne_nil _ _)]
  simp [sortBy]

/-- The text begins with a part, whatever comes behind it. -/
theorem canonical_head {params : List (Text × Text)} (hne : params ≠ []) :
    ∃ k w, canonical params = part (k, w) := by
  have hperm : (sortBy toLex params).Perm params := sortBy_perm _ params
  have hlength := hperm.length_eq
  unfold canonical
  rw [if_neg hne]
  cases hsorted : sortBy toLex params with
  | nil =>
    rw [hsorted] at hlength
    exact absurd (List.length_eq_zero_iff.mp hlength.symm) hne
  | cons kv rest =>
    by_cases hrest : rest.map part = []
    · exact ⟨kv.1, kv.2, by rw [List.map_cons, hrest]; simp⟩
    · refine ⟨kv.1, kv.2 ++ '&' :: ['&'].intercalate (rest.map part), ?_⟩
      rw [List.map_cons, List.intercalate_cons_of_ne_nil hrest]
      simp [part]

/-- The text has a sign of equality for each parameter. -/
theorem length_le_count (params : List (Text × Text)) :
    params.length ≤ (canonical params).count '=' := by
  have hparts : ∀ kvs : List (Text × Text),
      kvs.length ≤ (['&'].intercalate (kvs.map part)).count '=' := by
    intro kvs
    induction kvs with
    | nil => exact Nat.zero_le _
    | cons kv kvs ih =>
      have hone : 1 ≤ (part kv).count '=' := List.one_le_count_iff.mpr (by simp [part])
      by_cases hrest : kvs.map part = []
      · rw [List.map_cons, hrest]
        rw [List.map_eq_nil_iff] at hrest
        simpa [hrest] using hone
      · rw [List.map_cons, List.intercalate_cons_of_ne_nil hrest, List.count_append,
          List.count_append, List.length_cons]
        omega
  unfold canonical
  by_cases hne : params = []
  · rw [hne]
    exact Nat.zero_le _
  · have hperm : (sortBy toLex params).Perm params := sortBy_perm _ params
    rw [if_neg hne, ← hperm.length_eq]
    exact hparts _

/-! ## Which requests have a text of their own -/

/-- No parameters, or one without a sign of equality in its name and its value. -/
def Unambiguous : List (Text × Text) → Prop
  | [] => True
  | [(k, v)] => '=' ∉ k ∧ '=' ∉ v
  | _ => False

instance : DecidablePred Unambiguous
  | [] => .isTrue trivial
  | [(k, v)] => inferInstanceAs (Decidable ('=' ∉ k ∧ '=' ∉ v))
  | _ :: _ :: _ => .isFalse id

/-- No separator in a name, and no `&` in a value. -/
def Separable (params : List (Text × Text)) : Prop :=
  ∀ kv ∈ params, '&' ∉ kv.1 ∧ '=' ∉ kv.1 ∧ '&' ∉ kv.2

instance : DecidablePred Separable := fun params =>
  inferInstanceAs (Decidable (∀ kv ∈ params, '&' ∉ kv.1 ∧ '=' ∉ kv.1 ∧ '&' ∉ kv.2))

theorem part_inj {kv kv' : Text × Text} (hk : '=' ∉ kv.1) (hk' : '=' ∉ kv'.1)
    (h : part kv = part kv') : kv = kv' := by
  obtain ⟨hname, hvalue⟩ := cut_inj hk hk' h
  exact Prod.ext hname hvalue

theorem map_part_inj {kvs kvs' : List (Text × Text)} (h : ∀ kv ∈ kvs, '=' ∉ kv.1)
    (h' : ∀ kv ∈ kvs', '=' ∉ kv.1) (heq : kvs.map part = kvs'.map part) : kvs = kvs' := by
  induction kvs generalizing kvs' with
  | nil => exact (List.map_eq_nil_iff.mp heq.symm).symm
  | cons kv kvs ih =>
    cases kvs' with
    | nil => exact absurd heq (List.cons_ne_nil _ _)
    | cons kv' kvs' =>
      obtain ⟨hhead, htail⟩ := List.cons.inj heq
      obtain ⟨hkv, hkvs⟩ := List.forall_mem_cons.mp h
      obtain ⟨hkv', hkvs'⟩ := List.forall_mem_cons.mp h'
      rw [part_inj hkv hkv' hhead, ih hkvs hkvs' htail]

/-- An unambiguous text is that of one mapping. -/
theorem eq_of_unambiguous {params params' : List (Text × Text)} (h : Unambiguous params)
    (heq : canonical params = canonical params') : params = params' := by
  have hcount := length_le_count params'
  rw [← heq] at hcount
  unfold Unambiguous at h
  split at h
  · have hnone : params'.length ≤ 0 := hcount
    exact (List.length_eq_zero_iff.mp (by omega)).symm
  · next k v =>
    rw [canonical_singleton] at heq hcount
    have hone : (part (k, v)).count '=' = 1 := by
      unfold part
      rw [List.count_append, List.count_cons_self, List.count_eq_zero.mpr h.1,
        List.count_eq_zero.mpr h.2]
    match params' with
    | [] => simp [canonical, part] at heq
    | [kv'] =>
      rw [canonical_singleton] at heq
      have hname : '=' ∉ kv'.1 := by
        intro hmem
        have htwo : 1 ≤ kv'.1.count '=' := List.one_le_count_iff.mpr hmem
        rw [heq] at hone
        unfold part at hone
        rw [List.count_append, List.count_cons_self] at hone
        omega
      rw [part_inj h.1 hname heq]
    | _ :: _ :: rest =>
      rw [List.length_cons, List.length_cons] at hcount
      omega
  · exact h.elim

/-- Separable texts fall apart into their parameters. -/
theorem perm_of_separable {params params' : List (Text × Text)} (h : Separable params)
    (h' : Separable params') (heq : canonical params = canonical params') :
    params.Perm params' := by
  -- a text with parameters is not that of none
  have hempty : params = [] ↔ params' = [] := by
    have hleft := length_le_count params
    have hright := length_le_count params'
    constructor
    · intro hnil
      rw [← heq, hnil] at hright
      exact List.length_eq_zero_iff.mp (Nat.le_zero.mp hright)
    · intro hnil
      rw [heq, hnil] at hleft
      exact List.length_eq_zero_iff.mp (Nat.le_zero.mp hleft)
  by_cases hnil : params = []
  · rw [hnil, hempty.mp hnil]
  · have hsplit : ∀ kvs : List (Text × Text), kvs ≠ [] → Separable kvs →
        (canonical kvs).splitOn '&' = (sortBy toLex kvs).map part := by
      intro kvs hne hsep
      have hperm : (sortBy toLex kvs).Perm kvs := sortBy_perm _ kvs
      unfold canonical
      rw [if_neg hne, List.splitOn_intercalate]
      · intro l hl
        obtain ⟨kv, hkv, rfl⟩ := List.mem_map.mp hl
        obtain ⟨hname, -, hvalue⟩ := hsep kv (hperm.mem_iff.mp hkv)
        unfold part
        rw [List.mem_append, List.mem_cons]
        intro hmem
        rcases hmem with hmem | hmem | hmem
        · exact hname hmem
        · exact absurd hmem (by decide)
        · exact hvalue hmem
      · intro hmap
        have hlength := hperm.length_eq
        rw [List.map_eq_nil_iff.mp hmap] at hlength
        exact hne (List.length_eq_zero_iff.mp hlength.symm)
    have hparts := hsplit params hnil h
    rw [heq, hsplit params' (fun hnil' => hnil (hempty.mpr hnil')) h'] at hparts
    have hperm : (sortBy toLex params).Perm params := sortBy_perm _ params
    have hperm' : (sortBy toLex params').Perm params' := sortBy_perm _ params'
    have hname : ∀ {kvs : List (Text × Text)}, Separable kvs →
        ∀ kv ∈ sortBy toLex kvs, '=' ∉ kv.1 := by
      intro kvs hsep kv hkv
      exact (hsep kv ((mem_sortBy _ kvs kv).mp hkv)).2.1
    have hsorted : sortBy toLex params' = sortBy toLex params :=
      map_part_inj (hname h') (hname h) hparts
    rw [hsorted] at hperm'
    exact hperm.symm.trans hperm'

/-- Another request has the same text exactly when there are two parameters or more, or a sign of
    equality in the name or the value of the only one. -/
theorem hashed_unique_iff {r : Request} (hr : r.LineFree) :
    (∀ r' : Request, r'.LineFree → ¬ r.Same r' → hashed r ≠ hashed r') ↔ Unambiguous r.params := by
  constructor
  · intro hunique
    by_contra hambiguous
    -- a request for the same url, with one parameter
    have hother : ∀ kv : Text × Text, r.params ≠ [kv] → canonical r.params ≠ part kv := by
      intro kv hne heq
      have hsingle : (([kv] : List (Text × Text)).map Prod.fst).Nodup := List.nodup_singleton _
      have hfree : Request.LineFree ⟨r.url, [kv], hsingle⟩ := hr
      refine hunique ⟨r.url, [kv], hsingle⟩ hfree ?_ ?_
      · intro hsame
        exact hne (List.perm_singleton.mp hsame.2)
      · rw [hashed_eq_iff hr hfree]
        exact ⟨rfl, by rw [canonical_singleton, heq]⟩
    match hparams : r.params with
    | [] => exact hambiguous (by rw [hparams]; trivial)
    | [(k, v)] =>
      rw [hparams] at hother hambiguous
      rw [canonical_singleton] at hother
      have hor : '=' ∈ k ∨ '=' ∈ v := by
        by_contra hnone
        rw [not_or] at hnone
        exact hambiguous hnone
      rcases hor with hmem | hmem
      · obtain ⟨a, b, rfl⟩ := List.append_of_mem hmem
        refine hother (a, b ++ '=' :: v) ?_ ?_
        · intro heq
          have hname := congrArg List.length (Prod.mk.inj (List.cons.inj heq).1).1
          rw [List.length_append, List.length_cons] at hname
          omega
        · unfold part
          rw [List.append_assoc, List.cons_append]
      · obtain ⟨a, b, rfl⟩ := List.append_of_mem hmem
        refine hother (k ++ '=' :: a, b) ?_ ?_
        · intro heq
          have hname := congrArg List.length (Prod.mk.inj (List.cons.inj heq).1).1
          rw [List.length_append, List.length_cons] at hname
          omega
        · unfold part
          rw [List.append_assoc, List.cons_append]
    | _ :: _ :: rest =>
      rw [hparams] at hother
      obtain ⟨k, w, hhead⟩ := canonical_head (List.cons_ne_nil _ (_ :: rest))
      refine hother (k, w) ?_ hhead
      intro heq
      exact absurd (congrArg List.length heq) (by simp)
  · intro h r' hr' hdiffer heq
    obtain ⟨hurl, hcanonical⟩ := (hashed_eq_iff hr hr').mp heq
    exact hdiffer ⟨hurl, by rw [eq_of_unambiguous h hcanonical]⟩

/-- A request whose parameters its text shows among such requests. -/
def Plain (params : List (Text × Text)) : Prop := Unambiguous params ∨ Separable params

instance : DecidablePred Plain := fun params =>
  inferInstanceAs (Decidable (Unambiguous params ∨ Separable params))

theorem same_of_plain {r r' : Request} (hr : r.LineFree) (hr' : r'.LineFree) (h : Plain r.params)
    (h' : Plain r'.params) (heq : hashed r = hashed r') : r.Same r' := by
  obtain ⟨hurl, hcanonical⟩ := (hashed_eq_iff hr hr').mp heq
  refine ⟨hurl, ?_⟩
  rcases h with hone | hsep
  · rw [eq_of_unambiguous hone hcanonical]
  · rcases h' with hone' | hsep'
    · rw [eq_of_unambiguous hone' hcanonical.symm]
    · exact perm_of_separable hsep hsep' hcanonical

end TraxMania.Ingestion.Http
