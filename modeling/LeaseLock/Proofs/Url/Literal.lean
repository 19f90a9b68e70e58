import LeaseLock.Proofs.Url.Directory
import LeaseLock.Proofs.Url.Percent

/-!
# Keys that are addressed as they are

A key is written behind the address of a directory without being encoded first, and the address is
then read again.

**Entries** (`entryOf?`). What a server reads that has the directory: the bytes of what stands
behind it. Such a server decodes percent signs; it may refuse those that no two digits follow.

**Literal keys** (`IsLiteral`). A key means what it says if nothing in it means anything else: no
hash or question mark ends the path, no backslash turns into a slash, nothing is left out, no
segment leads elsewhere, and no percent sign stands for a byte.

**Nothing else will do.** A key that is not literal might still lead to its own entry by a detour,
if what it lost were made up for. It is not: no segment makes a path longer than it is itself, and
one that names a place makes it shorter (`size_follow_le`); what is left out makes the key shorter,
and so does decoding. What is read has the bytes of the key only if nothing was lost.

Main result: `Directory.entryOf?_eq_iff`.
-/

namespace LeaseLock.Url

variable {text : String} {d u : Url} {cs ds : List Char}

/-! ## What following costs -/

/-- The number of bytes that a text is read as. -/
def size (cs : List Char) : Nat := (decodedBytes (bytes cs)).length

theorem bytes_slash (cs : List Char) : bytes ('/' :: cs) = 0x2F :: bytes cs := rfl

theorem size_append_slash (cs ds : List Char) : size (cs ++ '/' :: ds) = size cs + 1 + size ds := by
  rw [size, bytes_append, bytes_slash, decodedBytes_append_slash]
  simp [size]
  omega

theorem size_le (cs : List Char) : size cs ≤ (bytes cs).length := (decodedBytes_shrinks _).1

theorem size_encoded (cs : List Char) : size (encoded inPath cs) = size cs := by
  rw [size, decodedBytes_encoded keepsEscapes_inPath, size]

theorem size_above_le (place : List (List Char)) :
    size (pathText (above place)) ≤ size (pathText place) := by
  match place with
  | [] => exact Nat.le_refl _
  | s :: place =>
    rw [above]
    split
    · exact Nat.le_refl _
    · rw [pathText_cons, size_append_slash]
      omega

/-- The segment is not a name. -/
def isPlace (s : List Char) : Bool := isHere s || isAbove s

theorem bytes_pos_of_isPlace {s : List Char} (h : isPlace s = true) : 0 < (bytes s).length := by
  cases s with
  | nil => cases h
  | cons c s =>
    rw [bytes_cons, List.length_append]
    exact Nat.add_pos_left (List.length_pos_iff.2 String.utf8EncodeChar_ne_nil) _

/-- The bytes of segments, each with the slash before it. -/
def cost : List (List Char) → Nat
  | [] => 0
  | s :: segs => (bytes s).length + 1 + cost segs

theorem size_ending_le (segs place : List (List Char)) :
    size (pathText ((if segs.isEmpty then [[]] else []) ++ place)) ≤ size (pathText place) + 1 := by
  cases segs with
  | nil =>
    show size (pathText ([] :: place)) ≤ _
    rw [pathText_cons, size_append_slash]
    exact Nat.le_refl _
  | cons => exact Nat.le_succ _

/-- No segment makes a path longer than it is itself, and one that names a place instead of an entry
makes it shorter. -/
theorem size_follow_le (place segs : List (List Char)) :
    size (pathText (follow place segs)) + segs.countP isPlace ≤
      size (pathText place) + cost segs := by
  fun_induction follow place segs with
  | case1 place => simp [cost]
  | case2 place s segs ending habove ih =>
    have hplace : isPlace s = true := by simp [isPlace, habove]
    have hs := bytes_pos_of_isPlace hplace
    have hending : size (pathText (ending ++ above place)) ≤ _ := size_ending_le segs _
    have habove_le := size_above_le place
    rw [List.countP_cons_of_pos hplace, cost]
    omega
  | case3 place s segs ending habove hhere ih =>
    have hplace : isPlace s = true := by simp [isPlace, hhere]
    have hs := bytes_pos_of_isPlace hplace
    have hending : size (pathText (ending ++ place)) ≤ _ := size_ending_le segs _
    rw [List.countP_cons_of_pos hplace, cost]
    omega
  | case4 place s segs habove hhere ih =>
    have hplace : ¬isPlace s = true := by simp [isPlace, habove, hhere]
    have hs := size_le s
    rw [pathText_cons, size_append_slash, size_encoded] at ih
    rw [List.countP_cons_of_neg hplace, cost]
    omega

/-! ## Pieces of a path -/

theorem cost_pieces (cs : List Char) :
    cost (Text.pieces isSlash cs) = (bytes cs).length + 1 := by
  induction cs with
  | nil => rfl
  | cons c cs ih =>
    unfold Text.pieces
    split
    next hc =>
      have hlen : (String.utf8EncodeChar c).length = 1 := by
        simp only [isSlash, Bool.or_eq_true, beq_iff_eq] at hc
        rcases hc with rfl | rfl <;> rfl
      rw [cost, ih, bytes_cons, List.length_append, hlen]
      simp
      omega
    next =>
      obtain ⟨piece, rest, h⟩ := List.exists_cons_of_ne_nil (Text.pieces_ne_nil isSlash cs)
      rw [h, cost] at ih
      rw [h]
      show cost ((c :: piece) :: rest) = _
      rw [cost, bytes_cons, bytes_cons, List.length_append, List.length_append]
      omega

/-- A backslash counts as a slash. -/
def slashed (c : Char) : Char := if isSlash c then '/' else c

theorem encoded_pieces (cs : List Char) :
    ((Text.pieces isSlash cs).flatMap fun s => '/' :: encoded inPath s) =
      '/' :: encoded inPath (cs.map slashed) := by
  induction cs with
  | nil => rfl
  | cons c cs ih =>
    unfold Text.pieces
    split
    next hc =>
      rw [List.flatMap_cons, ih, List.map_cons, slashed, if_pos hc]
      rfl
    next hc =>
      obtain ⟨piece, rest, h⟩ := List.exists_cons_of_ne_nil (Text.pieces_ne_nil isSlash cs)
      rw [h, List.flatMap_cons, List.cons_append, List.cons.injEq] at ih
      rw [h]
      show ((c :: piece) :: rest).flatMap (fun s => '/' :: encoded inPath s) = _
      rw [List.flatMap_cons, encoded_cons, List.map_cons, slashed, if_neg hc, encoded_cons, ← ih.2,
        List.cons_append, List.append_assoc]

/-- A path of names is followed name by name. -/
theorem follow_of_names (place : List (List Char)) {segs : List (List Char)}
    (h : ∀ s ∈ segs, isPlace s = false) : pathText (follow place segs) =
      pathText place ++ segs.flatMap fun s => '/' :: encoded inPath s := by
  induction segs generalizing place with
  | nil => simp [follow]
  | cons s segs ih =>
    rw [List.forall_mem_cons] at h
    obtain ⟨hhere, habove⟩ := Bool.or_eq_false_iff.1 h.1
    rw [follow, habove, hhere]
    show pathText (follow (encoded inPath s :: place) segs) = _
    rw [ih _ h.2, pathText_cons, List.flatMap_cons, List.append_assoc]

/-! ## What is left of a key -/

theorem bytes_le_of_sublist (h : ds.Sublist cs) : (bytes ds).length ≤ (bytes cs).length ∧
    ((bytes ds).length = (bytes cs).length → ds = cs) := by
  induction h with
  | slnil => exact ⟨Nat.le_refl _, fun _ => rfl⟩
  | cons c h ih =>
    have hc := List.length_pos_iff.2 (String.utf8EncodeChar_ne_nil (c := c))
    rw [bytes_cons, List.length_append]
    exact ⟨by omega, by omega⟩
  | cons_cons c h ih =>
    rw [bytes_cons, bytes_cons, List.length_append, List.length_append]
    exact ⟨by omega, fun heq => by rw [ih.2 (by omega)]⟩

theorem counted_sublist (cs : List Char) : (counted cs).Sublist cs := by
  refine List.filter_sublist.trans ?_
  have h := (List.dropWhile_sublist isBlank (l := cs.reverse)).reverse
  rwa [List.reverse_reverse] at h

theorem pathIn_sublist (cs : List Char) : (pathIn cs).Sublist cs :=
  ((List.takeWhile_sublist _).trans (List.takeWhile_sublist _)).trans (counted_sublist cs)

/-- The character is left out of a path, or the path ends there. -/
def isMark (c : Char) : Bool := ['#', '?', '\t', '\n', '\r'].contains c

theorem not_isMark_of_mem_pathIn {c : Char} (h : c ∈ pathIn cs) : isMark c = false := by
  have hquery : c ≠ '?' := by simpa using List.mem_takeWhile_imp h
  have hfragment : c ≠ '#' := by
    simpa using List.mem_takeWhile_imp ((List.takeWhile_sublist _).subset h)
  have hbreak := (List.mem_filter.1
    (((List.takeWhile_sublist _).trans (List.takeWhile_sublist _)).subset h)).2
  simp only [ne_eq, decide_eq_true_eq] at hbreak
  simp [isMark, hquery, hfragment, hbreak]

/-- Without marks, only the blanks at the end of a text are left out. -/
theorem pathIn_of_unmarked (h : ∀ c ∈ cs, isMark c = false) :
    pathIn cs = (cs.reverse.dropWhile isBlank).reverse := by
  have hmarks (c : Char) (hc : c ∈ (cs.reverse.dropWhile isBlank).reverse) :
      c ≠ '#' ∧ c ≠ '?' ∧ c ≠ '\t' ∧ c ≠ '\n' ∧ c ≠ '\r' := by
    have hmem := List.mem_reverse.1 ((List.dropWhile_subset _) (List.mem_reverse.1 hc))
    simpa [isMark] using h c hmem
  have hcounted : counted cs = (cs.reverse.dropWhile isBlank).reverse :=
    List.filter_eq_self.2 fun c hc => decide_eq_true (hmarks c hc).2.2
  have hfragment : beforeFragment cs = (cs.reverse.dropWhile isBlank).reverse := by
    rw [beforeFragment, hcounted]
    exact List.takeWhile_eq_self_iff.2 fun c hc => bne_iff_ne.2 (hmarks c hc).1
  rw [pathIn, hfragment]
  exact List.takeWhile_eq_self_iff.2 fun c hc => bne_iff_ne.2 (hmarks c hc).2.1

/-- The whole text is kept exactly if there are no marks, and no blank stands at the end. -/
theorem pathIn_eq_self_iff : pathIn cs = cs ↔
    (∀ c ∈ cs, isMark c = false) ∧ ∀ c ∈ cs.getLast?, isBlank c = false := by
  have hend : (cs.reverse.dropWhile isBlank).reverse = cs ↔
      ∀ c ∈ cs.getLast?, isBlank c = false := by
    rw [List.reverse_eq_iff, ← List.head?_reverse, List.dropWhile_eq_self_iff]
    cases cs.reverse <;> simp
  constructor
  · intro h
    have hmarks : ∀ c ∈ cs, isMark c = false := fun c hc => not_isMark_of_mem_pathIn (h.symm ▸ hc)
    exact ⟨hmarks, hend.1 ((pathIn_of_unmarked hmarks).symm.trans h)⟩
  · rintro ⟨hmarks, hlast⟩
    exact (pathIn_of_unmarked hmarks).trans (hend.2 hlast)

theorem queryIn_eq_none (h : ∀ c ∈ cs, isMark c = false) : queryIn cs = none := by
  have hquery : (beforeFragment cs).dropWhile (· != '?') = [] := by
    refine List.dropWhile_eq_nil_iff.2 fun c hc => bne_iff_ne.2 ?_
    rintro rfl
    exact absurd (h _ (((List.takeWhile_sublist _).trans (counted_sublist cs)).subset hc))
      (by decide)
  rw [queryIn, hquery]

/-! ## Which keys are addressed as they are -/

/-- The entry of a directory that an address names, as a server reads it that has the directory. A
server may refuse a percent sign that no two digits follow. -/
def entryOf? (strict : Bool) (d u : Url) : Option (List UInt8) :=
  let rest := bytes (u.path.toList.drop d.path.toList.length)
  if u.authority = d.authority ∧ d.path.toList <+: u.path.toList ∧ (strict && hasStray rest) = false
  then some (decodedBytes rest)
  else none

/-- The key means in an address what it says. -/
structure IsLiteral (strict : Bool) (key : List Char) : Prop where
  unmarked : ∀ c ∈ key, isMark c = false
  slashes : ∀ c ∈ key, c ≠ '\\'
  ended : ∀ c ∈ key.getLast?, isBlank c = false
  names : ∀ s ∈ Text.pieces isSlash key, isPlace s = false
  /-- No percent sign stands for a byte. -/
  unescaped : decodedBytes (bytes key) = bytes key
  accepted : (strict && hasStray (bytes key)) = false

theorem isLiteral_iff {strict : Bool} {key : List Char} : IsLiteral strict key ↔
    (key.all fun c => !isMark c && c != '\\') = true ∧
      (key.getLast?.all fun c => !isBlank c) = true ∧
      ((Text.pieces isSlash key).all fun s => !isPlace s) = true ∧
      decodedBytes (bytes key) = bytes key ∧ (strict && hasStray (bytes key)) = false := by
  simp only [List.all_eq_true, Option.all_eq_true, Bool.and_eq_true, Bool.not_eq_true', bne_iff_ne]
  constructor
  · rintro ⟨hmarks, hslashes, hend, hnames, hread, haccepted⟩
    exact ⟨fun c hc => ⟨hmarks c hc, hslashes c hc⟩, hend, hnames, hread, haccepted⟩
  · rintro ⟨hmarks, hend, hnames, hread, haccepted⟩
    exact ⟨fun c hc => (hmarks c hc).1, fun c hc => (hmarks c hc).2, hend, hnames, hread,
      haccepted⟩

instance (strict : Bool) (key : List Char) : Decidable (IsLiteral strict key) :=
  decidable_of_iff' _ isLiteral_iff

/-- Where nothing is left out and all segments are names, a key is written behind the path of its
directory. -/
theorem Directory.parse?_of_names (hd : Directory text d) {key : String}
    (hkept : pathIn key.toList = key.toList)
    (hnames : ∀ s ∈ Text.pieces isSlash key.toList, isPlace s = false) :
    ∃ u, parse? (text ++ key) = some u ∧ u.authority = d.authority ∧ u.query = none ∧
      u.path.toList = d.path.toList ++ encoded inPath (key.toList.map slashed) := by
  obtain ⟨place, hroot, hparse⟩ := hd.parse?_below
  refine ⟨_, hparse key, rfl, queryIn_eq_none (pathIn_eq_self_iff.1 hkept).1, ?_⟩
  rw [hroot, hkept, String.toList_ofList, follow_of_names place hnames, encoded_pieces,
    List.append_assoc, List.singleton_append]

/-- If as much is read below a directory as the key has, nothing of the key was left out, and all
its segments are names. -/
theorem kept_of_size {place : List (List Char)} {key rest : List Char}
    (hpath : pathText (follow place (Text.pieces isSlash (pathIn key))) =
      pathText place ++ '/' :: rest) (hsize : size rest = (bytes key).length) :
    pathIn key = key ∧ ∀ s ∈ Text.pieces isSlash key, isPlace s = false := by
  have hle := size_follow_le place (Text.pieces isSlash (pathIn key))
  obtain ⟨hshorter, hkept⟩ := bytes_le_of_sublist (pathIn_sublist key)
  rw [hpath, size_append_slash, hsize, cost_pieces] at hle
  have hkey : pathIn key = key := hkept (by omega)
  rw [hkey] at hle
  refine ⟨hkey, fun s hs => Bool.eq_false_iff.2 fun hplace => ?_⟩
  have hcount := List.countP_pos_iff.2 ⟨s, hs, hplace⟩
  omega

theorem slashed_of_ne {c : Char} (h : c ≠ '\\') : slashed c = c := by
  unfold slashed
  split
  next hc =>
    simp only [isSlash, Bool.or_eq_true, beq_iff_eq] at hc
    rcases hc with rfl | rfl
    · rfl
    · exact absurd rfl h
  next => rfl

theorem map_slashed_eq_self_iff : cs.map slashed = cs ↔ ∀ c ∈ cs, c ≠ '\\' := by
  constructor
  · rintro h c hc rfl
    rw [← h] at hc
    obtain ⟨c, -, hslash⟩ := List.mem_map.1 hc
    unfold slashed at hslash
    split at hslash
    · exact absurd hslash (by decide)
    next hc => exact hc (hslash ▸ rfl)
  · intro h
    exact (List.map_congr_left fun c hc => slashed_of_ne (h c hc)).trans (List.map_id' cs)

theorem length_bytes_slashed (cs : List Char) :
    (bytes (cs.map slashed)).length = (bytes cs).length := by
  induction cs with
  | nil => rfl
  | cons c cs ih =>
    have hc : (String.utf8EncodeChar (slashed c)).length = (String.utf8EncodeChar c).length := by
      by_cases hback : c = '\\'
      · subst hback
        rfl
      · rw [slashed_of_ne hback]
    rw [List.map_cons, bytes_cons, bytes_cons, List.length_append, List.length_append, hc, ih]

theorem entryOf?_of_names {strict : Bool} {key : List Char} (hauthority : u.authority = d.authority)
    (hpath : u.path.toList = d.path.toList ++ encoded inPath (key.map slashed)) :
    entryOf? strict d u = if (strict && hasStray (bytes (key.map slashed))) = false then
      some (decodedBytes (bytes (key.map slashed))) else none := by
  rw [entryOf?, hpath, List.drop_left, hasStray_encoded keepsEscapes_inPath,
    decodedBytes_encoded keepsEscapes_inPath]
  simp [hauthority, List.prefix_append]

/-- **A key is addressed as it is** exactly if it is literal. -/
theorem Directory.entryOf?_eq_iff (hd : Directory text d) {strict : Bool} {key : String}
    (hu : parse? (text ++ key) = some u) :
    entryOf? strict d u = some (bytes key.toList) ↔ IsLiteral strict key.toList := by
  constructor
  · intro hentry
    -- As much is read as the key has, so nothing was left out on the way.
    obtain ⟨hkept, hnames⟩ : pathIn key.toList = key.toList ∧
        ∀ s ∈ Text.pieces isSlash key.toList, isPlace s = false := by
      obtain ⟨place, hroot, hparse⟩ := hd.parse?_below
      rw [hparse key, Option.some.injEq] at hu
      simp only [entryOf?] at hentry
      split at hentry
      next hread =>
        obtain ⟨rest, hrest⟩ := hread.2.1
        rw [← hrest, List.drop_left, Option.some.injEq] at hentry
        rw [hroot, ← hu, String.toList_ofList, List.append_assoc, List.singleton_append] at hrest
        exact kept_of_size hrest.symm (congrArg List.length hentry)
      next => cases hentry
    obtain ⟨u', hu', hauthority, -, hpath⟩ := hd.parse?_of_names hkept hnames
    obtain rfl : u = u' := Option.some.inj (hu.symm.trans hu')
    rw [entryOf?_of_names hauthority hpath] at hentry
    split at hentry
    next haccepted =>
      have hread := Option.some.inj hentry
      -- For the same reason there was nothing to decode.
      have hsame := (decodedBytes_shrinks (bytes (key.toList.map slashed))).2
        (by rw [hread, length_bytes_slashed])
      have hslashed : key.toList.map slashed = key.toList :=
        bytes_injective (hsame.symm.trans hread)
      rw [hslashed] at hread haccepted
      exact ⟨(pathIn_eq_self_iff.1 hkept).1, map_slashed_eq_self_iff.1 hslashed,
        (pathIn_eq_self_iff.1 hkept).2, hnames, hread, haccepted⟩
    next => cases hentry
  · intro h
    obtain ⟨u', hu', hauthority, -, hpath⟩ :=
      hd.parse?_of_names (pathIn_eq_self_iff.2 ⟨h.unmarked, h.ended⟩) h.names
    obtain rfl : u = u' := Option.some.inj (hu.symm.trans hu')
    rw [entryOf?_of_names hauthority hpath, map_slashed_eq_self_iff.2 h.slashes, if_pos h.accepted,
      h.unescaped]

/-- One key for each way in which a key can mean something else. -/
example : ["a#b", "a?b", "a\\b", "a\tb", "a ", "a/../b", "./a", "%41"].all
    (fun key => !decide (IsLiteral false key.toList)) = true := by
  decide +kernel

/-- A literal key brings no query into an address. -/
theorem Directory.query_eq_none (hd : Directory text d) {strict : Bool} {key : String}
    (hu : parse? (text ++ key) = some u) (h : IsLiteral strict key.toList) : u.query = none := by
  obtain ⟨place, -, hparse⟩ := hd.parse?_below
  obtain rfl := Option.some.inj ((hparse key).symm.trans hu)
  exact queryIn_eq_none h.unmarked

end LeaseLock.Url
