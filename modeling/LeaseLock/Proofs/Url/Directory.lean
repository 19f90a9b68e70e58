import LeaseLock.Url.Address
import Mathlib.Data.List.TakeWhile
import Mathlib.Tactic.Common

/-!
# Addresses below a directory

**Directories** (`Directory`). An address that ends with a slash and has neither query nor fragment
leaves room for a path: what is written behind it changes neither its host nor what stands before.

**What counts** (`pathIn`, `queryIn`). Of a text behind a directory, the part before a question mark
and a hash goes on with the path. Blanks at its end, and line breaks and tabs, are left out.

**Following** (`stride`, `pathText`). The segments of a directory lead to a place, and the segments
behind it are followed from there, wherever they lead.

Main result: `Directory.parse?_below`.
-/

namespace LeaseLock.Url

variable {α : Type} {p : α → Bool} {xs ys : List α} {text : String} {d u : Url}
  {cs ds : List Char}

/-! ## Reading a text behind another -/

theorem drop_length_takeWhile (p : α → Bool) (xs : List α) :
    xs.drop (xs.takeWhile p).length = xs.dropWhile p := by
  induction xs with
  | nil => rfl
  | cons x xs ih => by_cases hx : p x = true <;> simp [hx, ih]

/-- A stretch that ends inside a row is the same in every longer row. -/
theorem takeWhile_append_of_ends (h : xs.dropWhile p ≠ []) (ys : List α) :
    (xs ++ ys).takeWhile p = xs.takeWhile p := by
  rw [List.takeWhile_append, if_neg]
  intro hlen
  have hdrop := congrArg List.length (List.takeWhile_append_dropWhile (p := p) (l := xs))
  rw [List.length_append, hlen] at hdrop
  exact h (List.length_eq_zero_iff.1 (by omega))

theorem dropWhile_append_of_ends (h : xs.dropWhile p ≠ []) (ys : List α) :
    (xs ++ ys).dropWhile p = xs.dropWhile p ++ ys := by
  rw [List.dropWhile_append, if_neg (by simpa using h)]

theorem dropWhile_append_cons {x : α} (hx : p x = false) (xs ys : List α) :
    (xs ++ x :: ys).dropWhile p = xs.dropWhile p ++ x :: ys := by
  induction xs with
  | nil => simp [hx]
  | cons y xs ih => by_cases hy : p y = true <;> simp [hy, ih]

/-- A blank or a control. -/
def isBlank (c : Char) : Bool := c.toNat ≤ 32

/-- What counts of the last part of a text. -/
def counted (cs : List Char) : List Char :=
  (cs.reverse.dropWhile isBlank).reverse.filter fun c => c ≠ '\t' ∧ c ≠ '\n' ∧ c ≠ '\r'

/-- What counts of it before a fragment. -/
def beforeFragment (cs : List Char) : List Char := (counted cs).takeWhile (· != '#')

/-- The path that the last part of a text continues. -/
def pathIn (cs : List Char) : List Char := (beforeFragment cs).takeWhile (· != '?')

/-- The query that begins in the last part of a text. -/
def queryIn (cs : List Char) : Option String :=
  match (beforeFragment cs).dropWhile (· != '?') with
  | _ :: query => some (String.ofList (encoded inWebQuery query))
  | [] => none

/-- Behind a slash, what counts of the end of a text does not hang on what stands before it. -/
theorem cleaned_append (h : text.toList = ds ++ ['/']) :
    ∃ front, front ⊆ ds ∧ ∀ t : String, cleaned (text ++ t) = front ++ '/' :: counted t.toList := by
  refine ⟨(ds.dropWhile isBlank).filter fun c => c ≠ '\t' ∧ c ≠ '\n' ∧ c ≠ '\r',
    List.Subset.trans List.filter_sublist.subset (List.dropWhile_subset _), fun t => ?_⟩
  have hslash : isBlank '/' = false := by decide
  show ((((text ++ t).toList.dropWhile isBlank).reverse.dropWhile isBlank).reverse).filter _ = _
  rw [String.toList_append, h, List.append_assoc, List.singleton_append,
    dropWhile_append_cons hslash, List.reverse_append, List.reverse_cons, List.append_assoc,
    List.singleton_append, dropWhile_append_cons hslash, List.reverse_append, List.reverse_cons,
    List.reverse_reverse, List.append_assoc, List.singleton_append, List.filter_append,
    List.filter_cons_of_pos (by decide)]
  rfl

/-! ## Following a path further -/

/-- Where one segment leads that is not the last. -/
def stride (place : List (List Char)) (s : List Char) : List (List Char) :=
  if isAbove s then above place else if isHere s then place else encoded inPath s :: place

theorem follow_append {tail : List (List Char)} (h : tail ≠ []) (place segs : List (List Char)) :
    follow place (segs ++ tail) = follow (segs.foldl stride place) tail := by
  induction segs generalizing place with
  | nil => rfl
  | cons s segs ih =>
    have hlast : (segs ++ tail).isEmpty = false := by simpa using fun _ => h
    rw [List.cons_append, follow, hlast, List.foldl_cons, ← ih, stride]
    simp only [Bool.false_eq_true, if_false, List.nil_append]
    split_ifs <;> rfl

/-- The path to a place as a text. -/
def pathText (place : List (List Char)) : List Char := place.reverse.flatMap fun s => '/' :: s

theorem pathText_cons (s : List Char) (place : List (List Char)) :
    pathText (s :: place) = pathText place ++ '/' :: s := by
  simp [pathText]

/-! ## Directories -/

/-- The text is the address of a directory: more can be written behind it. -/
structure Directory (text : String) (d : Url) : Prop where
  parses : parse? text = some d
  ends : text.toList.getLast? = some '/'
  unmarked : '?' ∉ text.toList ∧ '#' ∉ text.toList

/-- A character of the authority of an address. -/
def inAuthority (c : Char) : Bool := !isSlash c && c != '?' && c != '#'

/-- What stands behind the scheme and the slashes that follow it. -/
def behindScheme (cs : List Char) : List Char :=
  ((cs.dropWhile (· != ':')).drop 1).dropWhile isSlash

/-- What stands behind the authority: a path, a query and a fragment. -/
def behindAuthority (cs : List Char) : List Char := (behindScheme cs).dropWhile inAuthority

theorem parse?_eq (s : String) : parse? s =
    let scheme := (cleaned s).takeWhile (· != ':')
    let authority := (behindScheme (cleaned s)).takeWhile inAuthority
    let rest := (behindAuthority (cleaned s)).takeWhile (· != '#')
    let query := match rest.dropWhile (· != '?') with
      | _ :: query => some (String.ofList (encoded inWebQuery query))
      | [] => none
    if ["http", "https"].contains (String.ofList (scheme.map Char.toLower)) &&
        isAuthority authority then
      some ⟨String.ofList authority,
        resolve (Text.pieces isSlash ((rest.takeWhile (· != '?')).drop 1)), query⟩
    else none := by
  simp only [parse?, drop_length_takeWhile]
  rfl

theorem behindScheme_append (h : behindScheme cs ≠ []) (ds : List Char) :
    (cs ++ ds).takeWhile (· != ':') = cs.takeWhile (· != ':') ∧
      behindScheme (cs ++ ds) = behindScheme cs ++ ds := by
  have hcolon : cs.dropWhile (· != ':') ≠ [] := by
    intro hnone
    rw [behindScheme, hnone] at h
    exact h rfl
  refine ⟨takeWhile_append_of_ends hcolon ds, ?_⟩
  rw [behindScheme, dropWhile_append_of_ends hcolon,
    List.drop_append_of_le_length (List.length_pos_iff.2 hcolon), dropWhile_append_of_ends h]
  rfl

theorem behindAuthority_append (h : behindAuthority cs ≠ []) (ds : List Char) :
    (cs ++ ds).takeWhile (· != ':') = cs.takeWhile (· != ':') ∧
      (behindScheme (cs ++ ds)).takeWhile inAuthority = (behindScheme cs).takeWhile inAuthority ∧
      behindAuthority (cs ++ ds) = behindAuthority cs ++ ds := by
  have hscheme : behindScheme cs ≠ [] := by
    intro hnone
    rw [behindAuthority, hnone] at h
    exact h rfl
  obtain ⟨hsame, hbehind⟩ := behindScheme_append hscheme ds
  rw [behindAuthority, hbehind]
  exact ⟨hsame, takeWhile_append_of_ends h ds, dropWhile_append_of_ends h ds⟩

theorem behindAuthority_suffix (cs : List Char) :
    behindScheme cs <:+ cs ∧ behindAuthority cs <:+ cs := by
  have hscheme : behindScheme cs <:+ cs := (List.dropWhile_suffix _).trans
    ((List.drop_suffix _ _).trans (List.dropWhile_suffix _))
  exact ⟨hscheme, (List.dropWhile_suffix _).trans hscheme⟩

theorem isAuthority_nil : isAuthority [] = false := rfl

/-- The authority of a directory ends in it, and what stands behind it ends with a slash. -/
theorem Directory.authority_ends (h : Directory text d) {front : List Char}
    (htext : cleaned text = front ++ ['/']) :
    ∃ init, behindAuthority (cleaned text) = init ++ ['/'] := by
  -- Without an authority the text would be no address.
  have hplace : behindScheme (cleaned text) ≠ [] := by
    intro hnone
    have hparse := h.parses
    simp [parse?_eq, hnone, isAuthority_nil] at hparse
  obtain ⟨hscheme, hauthority⟩ := behindAuthority_suffix (cleaned text)
  rw [htext] at hscheme hauthority hplace ⊢
  rcases List.suffix_concat_iff.1 hscheme with hnone | ⟨init, hinit, -⟩
  · exact absurd hnone hplace
  · rcases List.suffix_concat_iff.1 hauthority with hnone | ⟨init, hinit, -⟩
    · rw [behindAuthority, hinit, dropWhile_append_cons (by decide)] at hnone
      simp at hnone
    · exact ⟨init, hinit⟩

/-- Behind a directory only the path and the query go on. -/
theorem Directory.parse?_append (h : Directory text d) :
    ∃ last, (last = [] ∨ ∃ init, last = init ++ ['/']) ∧ ∀ t : String, parse? (text ++ t) =
      some ⟨d.authority, resolve (Text.pieces isSlash (last ++ pathIn t.toList)),
        queryIn t.toList⟩ := by
  obtain ⟨ds, hds⟩ := List.getLast?_eq_some_iff.1 h.ends
  obtain ⟨front, hfront, hclean⟩ := cleaned_append hds
  have htext : cleaned text = front ++ ['/'] := by
    rw [← String.append_empty (s := text)]
    exact hclean ""
  obtain ⟨init, hinit⟩ := h.authority_ends htext
  have hsubset : init ++ ['/'] ⊆ text.toList := by
    rw [← hinit]
    refine List.Subset.trans (behindAuthority_suffix (cleaned text)).2.subset ?_
    rw [htext, hds]
    exact List.append_subset.2 ⟨List.Subset.trans hfront (List.subset_append_left _ _),
      List.subset_append_right _ _⟩
  have hnot_query : ∀ c ∈ init ++ ['/'], (c != '?') = true := fun c hc =>
    bne_iff_ne.2 fun heq => h.unmarked.1 (hsubset (heq ▸ hc))
  have hnot_fragment : ∀ c ∈ init ++ ['/'], (c != '#') = true := fun c hc =>
    bne_iff_ne.2 fun heq => h.unmarked.2 (hsubset (heq ▸ hc))
  have hparse := h.parses
  simp only [parse?_eq] at hparse
  split at hparse
  next hvalid =>
    refine ⟨(init ++ ['/']).drop 1, ?_, fun t => ?_⟩
    · cases init with
      | nil => exact .inl rfl
      | cons c init => exact .inr ⟨init, rfl⟩
    · have hall : cleaned (text ++ t) = cleaned text ++ counted t.toList := by
        rw [hclean t, htext, List.append_assoc, List.singleton_append]
      have hends : behindAuthority (cleaned text) ≠ [] := by simp [hinit]
      obtain ⟨hscheme, hauthority, hrest⟩ := behindAuthority_append hends (counted t.toList)
      simp only [parse?_eq, hall, hscheme, hauthority, hrest]
      rw [if_pos hvalid, hinit, List.takeWhile_append_of_pos hnot_fragment,
        List.takeWhile_append_of_pos hnot_query, List.dropWhile_append_of_pos hnot_query,
        List.drop_append_of_le_length (by simp)]
      cases hparse
      rfl
  next => cases hparse

/-- **Below a directory** a text is followed from the place that the directory is. -/
theorem Directory.parse?_below (h : Directory text d) :
    ∃ place, d.path.toList = pathText place ++ ['/'] ∧
      ∀ t : String, parse? (text ++ t) = some ⟨d.authority,
        String.ofList (pathText (follow place (Text.pieces isSlash (pathIn t.toList)))),
        queryIn t.toList⟩ := by
  obtain ⟨place, hparse⟩ : ∃ place, ∀ t : String, parse? (text ++ t) = some ⟨d.authority,
      String.ofList (pathText (follow place (Text.pieces isSlash (pathIn t.toList)))),
      queryIn t.toList⟩ := by
    obtain ⟨last, hlast, hparse⟩ := h.parse?_append
    rcases hlast with rfl | ⟨init, rfl⟩
    · exact ⟨[], hparse⟩
    · refine ⟨(Text.pieces isSlash init).foldl stride [], fun t => ?_⟩
      rw [hparse t, List.append_assoc, List.singleton_append, Text.pieces_append (by decide),
        resolve, follow_append (Text.pieces_ne_nil _ _), pathText]
  refine ⟨place, ?_, hparse⟩
  have hd := hparse ""
  rw [String.append_empty, h.parses, Option.some.injEq] at hd
  rw [hd, String.toList_ofList]
  exact pathText_cons [] place

end LeaseLock.Url
