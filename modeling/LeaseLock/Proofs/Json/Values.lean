import LeaseLock.Proofs.Json.Grammar

/-!
# Texts that hold a value

**Words** (`Value.words`). Each value has one row of words: commas stand between items and members,
and a colon between a name and its value. The texts of the value are those in which these words are
laid out (`Holds`).

**Reading** follows the value. The words of a value take a reader from where a value is due to where
it is complete (`run_words`), whatever is still open around it.

Main result: `parse?_of_holds`.
-/

namespace LeaseLock.Json

open Stage

variable {v : Value} {ts : List Token} {outer : List Frame}

/-- Groups of words with commas between them. -/
def listed : List (List Token) → List Token
  | [] => []
  | g :: gs => g ++ gs.flatMap (.comma :: ·)

mutual

/-- The words of a value. -/
def Value.words : Value → List Token
  | .null => [.null]
  | .bool b => [.bool b]
  | .number spelling => [.number spelling]
  | .text pieces => [.text pieces]
  | .array items => .arrayOpen :: (listed (wordsOfItems items) ++ [.arrayClose])
  | .object members => .objectOpen :: (listed (wordsOfMembers members) ++ [.objectClose])

/-- The words of each item. -/
def wordsOfItems : List Value → List (List Token)
  | [] => []
  | v :: items => v.words :: wordsOfItems items

/-- The words of each member. -/
def wordsOfMembers : List (List Piece × Value) → List (List Token)
  | [] => []
  | (n, v) :: members => (.text n :: .colon :: v.words) :: wordsOfMembers members

end

/-- The text holds the value. -/
def Holds (cs : List Char) (v : Value) : Prop := Laid v.words cs

/-! ## Induction over a value -/

/-- What holds of a value if it holds of its parts holds of every value. -/
theorem Value.induct {P : Value → Prop} (null : P .null) (bool : ∀ b, P (.bool b))
    (number : ∀ spelling, P (.number spelling)) (text : ∀ pieces, P (.text pieces))
    (array : ∀ items, (∀ v ∈ items, P v) → P (.array items))
    (object : ∀ members, (∀ m ∈ members, P m.2) → P (.object members)) : ∀ v, P v
  | .null => null
  | .bool b => bool b
  | .number spelling => number spelling
  | .text pieces => text pieces
  | .array items => array items fun v hv => by
      have := List.sizeOf_lt_of_mem hv
      exact Value.induct null bool number text array object v
  | .object members => object members fun m hm => by
      have := List.sizeOf_lt_of_mem hm
      have : sizeOf m.2 < sizeOf m := by
        obtain ⟨n, v⟩ := m
        show sizeOf v < sizeOf (n, v)
        rw [Prod.mk.sizeOf_spec]
        omega
      exact Value.induct null bool number text array object m.2

theorem Value.words_head (v : Value) : ∃ t ts, v.words = t :: ts ∧ t ≠ .arrayClose := by
  cases v with
  | null | bool | number | text | array | object => exact ⟨_, _, rfl, nofun⟩

/-! ## No word runs into the next -/

theorem Apart.append_mark {g rest : List Token} {t : Token} (hg : Apart g) (ht : t.isNumber = false)
    (hrest : Apart rest) : Apart (g ++ t :: rest) := by
  have hmark : Apart (t :: rest) := hrest.cons fun u _ => by simp [ht]
  refine List.IsChain.append hg hmark fun u _ w hw => ?_
  obtain rfl : t = w := by simpa using hw
  simp [ht]

theorem Apart.listed {gs : List (List Token)} {close : Token} (h : ∀ g ∈ gs, Apart g)
    (hc : close.isNumber = false) : Apart (listed gs ++ [close]) := by
  cases gs with
  | nil => exact .singleton _
  | cons g gs =>
    have htail : ∀ gs : List (List Token), (∀ g ∈ gs, Apart g) → ∀ g, Apart g →
        Apart (g ++ (gs.flatMap (Token.comma :: ·) ++ [close])) := by
      intro gs
      induction gs with
      | nil => exact fun _ g hg => hg.append_mark hc .nil
      | cons g' gs ih =>
        intro hgs g hg
        have hnext := ih (fun g hg => hgs g (List.mem_cons_of_mem _ hg)) g'
          (hgs g' List.mem_cons_self)
        simpa using hg.append_mark rfl hnext
    rw [Json.listed, List.append_assoc]
    exact htail gs (fun g hg => h g (List.mem_cons_of_mem _ hg)) g (h g List.mem_cons_self)

theorem wordsOfItems_eq (items : List Value) : wordsOfItems items = items.map Value.words := by
  induction items with
  | nil => rfl
  | cons v items ih => rw [wordsOfItems, ih, List.map_cons]

theorem wordsOfMembers_eq (members : List (List Piece × Value)) :
    wordsOfMembers members = members.map fun m => .text m.1 :: .colon :: m.2.words := by
  induction members with
  | nil => rfl
  | cons m members ih => rw [wordsOfMembers, ih, List.map_cons]

/-- **No two numbers of a value stand next to each other.** -/
theorem apart_words (v : Value) : Apart v.words := by
  induction v using Value.induct with
  | null | bool | number | text => exact .singleton _
  | array items ih =>
    rw [Value.words, wordsOfItems_eq]
    refine List.IsChain.cons (Apart.listed ?_ rfl) fun t _ => by simp [Token.isNumber]
    simpa using ih
  | object members ih =>
    rw [Value.words, wordsOfMembers_eq]
    refine List.IsChain.cons (Apart.listed ?_ rfl) fun t _ => by simp [Token.isNumber]
    intro g hg
    obtain ⟨m, hm, rfl⟩ := List.mem_map.1 hg
    exact ((ih m hm).cons fun t _ => by simp [Token.isNumber]).cons fun t _ => by
      simp [Token.isNumber]

/-! ## Taking the words -/

theorem run_append (s : Stage) (ts us : List Token) :
    s.run (ts ++ us) = (s.run ts).bind fun s => s.run us := by
  induction ts generalizing s with
  | nil => rfl
  | cons t ts ih =>
    simp only [List.cons_append, run]
    cases s.step t with
    | none => rfl
    | some s => exact ih s

theorem run_cons_of_step {a b : Stage} {t : Token} (h : a.step t = some b) (ts : List Token) :
    a.run (t :: ts) = b.run ts := by
  rw [run, h, Option.bind_some]

/-- The words of a value complete it, whatever is open around it. -/
def Completes (v : Value) : Prop :=
  ∀ outer, (Stage.value outer).run v.words = some (complete outer v)

theorem Completes.run_append (h : Completes v) (outer : List Frame) (ts : List Token) :
    (Stage.value outer).run (v.words ++ ts) = (complete outer v).run ts := by
  rw [Json.run_append, h, Option.bind_some]

/-- The first item of an array may be read as any other. -/
theorem run_firstItem (v : Value) (outer : List Frame) (ts : List Token) :
    (Stage.firstItem outer).run (v.words ++ ts) =
      (Stage.value (.item [] :: outer)).run (v.words ++ ts) := by
  obtain ⟨t, us, hw, ht⟩ := v.words_head
  have hstep : (Stage.firstItem outer).step t = (Stage.value (.item [] :: outer)).step t := by
    cases t with
    | arrayClose => exact absurd rfl ht
    | _ => rfl
  rw [hw, List.cons_append, run, run, hstep]

theorem run_items {items : List Value} (h : ∀ v ∈ items, Completes v) (before : List Value)
    (outer : List Frame) :
    (Stage.afterItem before outer).run
      ((items.map Value.words).flatMap (.comma :: ·) ++ [.arrayClose]) =
      some (complete outer (.array (before.reverse ++ items))) := by
  induction items generalizing before with
  | nil =>
    rw [List.append_nil]
    rfl
  | cons v items ih =>
    have hv := h v List.mem_cons_self
    rw [List.map_cons, List.flatMap_cons, List.append_assoc, List.cons_append,
      run_cons_of_step (b := .value (.item before :: outer)) rfl, hv.run_append]
    have hrest := ih (fun v hv => h v (List.mem_cons_of_mem _ hv)) (v :: before)
    rwa [List.reverse_cons, List.append_assoc] at hrest

theorem run_members {members : List (List Piece × Value)} (h : ∀ m ∈ members, Completes m.2)
    (before : List (List Piece × Value)) (outer : List Frame) :
    (Stage.afterMember before outer).run
      ((members.map fun m => Token.text m.1 :: .colon :: m.2.words).flatMap (.comma :: ·) ++
        [.objectClose]) =
      some (complete outer (.object (before.reverse ++ members))) := by
  induction members generalizing before with
  | nil =>
    rw [List.append_nil]
    rfl
  | cons m members ih =>
    obtain ⟨n, v⟩ := m
    have hv := h (n, v) List.mem_cons_self
    rw [List.map_cons, List.flatMap_cons, List.append_assoc, List.cons_append, List.cons_append,
      List.cons_append, run_cons_of_step (b := .name before outer) rfl,
      run_cons_of_step (b := .colon before n outer) rfl,
      run_cons_of_step (b := .value (.member before n :: outer)) rfl, hv.run_append]
    have hrest := ih (fun m hm => h m (List.mem_cons_of_mem _ hm)) ((n, v) :: before)
    rwa [List.reverse_cons, List.append_assoc] at hrest

/-- **The words of a value are read as the value.** -/
theorem run_words (v : Value) : Completes v := by
  induction v using Value.induct with
  | null | bool | number | text => exact fun outer => rfl
  | array items ih =>
    intro outer
    rw [Value.words, wordsOfItems_eq, run_cons_of_step (b := .firstItem outer) rfl]
    cases items with
    | nil => rfl
    | cons v items =>
      rw [List.map_cons, listed, List.append_assoc, run_firstItem,
        (ih v List.mem_cons_self).run_append]
      exact run_items (fun v hv => ih v (List.mem_cons_of_mem _ hv)) [v] outer
  | object members ih =>
    intro outer
    rw [Value.words, wordsOfMembers_eq, run_cons_of_step (b := .firstName outer) rfl]
    cases members with
    | nil => rfl
    | cons m members =>
      obtain ⟨n, v⟩ := m
      rw [List.map_cons, listed, List.append_assoc, List.cons_append, List.cons_append,
        run_cons_of_step (b := .colon [] n outer) rfl,
        run_cons_of_step (b := .value (.member [] n :: outer)) rfl,
        (ih (n, v) List.mem_cons_self).run_append]
      exact run_members (fun m hm => ih m (List.mem_cons_of_mem _ hm)) [(n, v)] outer

/-- **A text that holds a value is read as this value.** -/
theorem parse?_of_holds {cs : List Char} (h : Holds cs v) : parse? (String.ofList cs) = some v := by
  unfold parse?
  rw [String.toList_ofList, scan?_of_laid h (apart_words v), Option.bind_some, ofTokens?,
    run_words v []]
  rfl

/-! ## What stands in the text -/

theorem mem_listed {gs : List (List Token)} {g : List Token} (hg : g ∈ gs) {t : Token}
    (ht : t ∈ g) : t ∈ listed gs := by
  cases gs with
  | nil => cases hg
  | cons g' gs =>
    rcases List.mem_cons.1 hg with rfl | hg
    · exact List.mem_append_left _ ht
    · exact List.mem_append_right _ (List.mem_flatMap.2 ⟨g, hg, List.mem_cons_of_mem _ ht⟩)

theorem mem_words_object {members : List (List Piece × Value)} {m : List Piece × Value}
    (hm : m ∈ members) {t : Token} (ht : t = .text m.1 ∨ t ∈ m.2.words) :
    t ∈ (Value.object members).words := by
  have hword : t ∈ Token.text m.1 :: .colon :: m.2.words := by
    rcases ht with rfl | ht
    · exact List.mem_cons_self
    · exact List.mem_cons_of_mem _ (List.mem_cons_of_mem _ ht)
  rw [Value.words, wordsOfMembers_eq]
  exact List.mem_cons_of_mem _ (List.mem_append_left _ (mem_listed (List.mem_map_of_mem hm) hword))

theorem mem_words_array {items : List Value} (hv : v ∈ items) {t : Token} (ht : t ∈ v.words) :
    t ∈ (Value.array items).words := by
  rw [Value.words, wordsOfItems_eq]
  exact List.mem_cons_of_mem _ (List.mem_append_left _ (mem_listed (List.mem_map_of_mem hv) ht))

/-! ## Writing a value down -/

/-- A string that is spelled with its characters alone. -/
def plain (s : String) : List Piece := s.toList.map .char

theorem spells_plain (s : String) : Spells s (plain s) := by
  unfold Spells plain
  induction s.toList with
  | nil => exact .nil
  | cons c cs ih => exact .char ih

/-- A string that is spelled with code units alone. -/
def escaped (s : String) : List Piece :=
  s.toList.flatMap fun c =>
    if c.toNat < 0x10000 then [.unit c.toNat]
    else [.unit (0xD800 + (c.toNat - 0x10000) / 0x400),
      .unit (0xDC00 + (c.toNat - 0x10000) % 0x400)]

theorem spells_escaped (s : String) : Spells s (escaped s) := by
  unfold Spells escaped
  induction s.toList with
  | nil => exact .nil
  | cons c cs ih =>
    rw [List.flatMap_cons]
    split
    next hc => exact .unit hc ih
    next hc => exact .pair (Nat.le_of_not_lt hc) ih

/-- A piece that is a character stands for itself, and one that is a unit is given by number. -/
def Piece.write : Piece → List Char
  | .char c => [c]
  | .unit u => ['\\', 'u', Nat.digitChar (u / 0x1000), Nat.digitChar (u / 0x100 % 16),
      Nat.digitChar (u / 0x10 % 16), Nat.digitChar (u % 16)]

/-- The piece can be written so. -/
def Piece.isPlain : Piece → Bool
  | .char c => 32 ≤ c.toNat && c ≠ '"' && c ≠ '\\'
  | .unit u => u < 0x10000

/-- One way to write a word. -/
def Token.write : Token → List Char
  | .objectOpen => ['\x7b']
  | .objectClose => ['\x7d']
  | .arrayOpen => ['[']
  | .arrayClose => [']']
  | .colon => [':']
  | .comma => [',']
  | .null => ['n', 'u', 'l', 'l']
  | .bool true => ['t', 'r', 'u', 'e']
  | .bool false => ['f', 'a', 'l', 's', 'e']
  | .number cs => cs
  | .text ps => '"' :: ps.flatMap Piece.write ++ ['"']

/-- The word can be written so; a number that is more than its digits is left out. -/
def Token.isPlain : Token → Bool
  | .number cs => cs == ['0'] || !cs.isEmpty && cs.all Char.isDigit && cs.head? != some '0'
  | .text ps => ps.all Piece.isPlain
  | _ => true

theorem isPlain_escaped (s : String) : (escaped s).all Piece.isPlain = true := by
  have hsmall (c : Char) : c.toNat < 0x110000 := c.valid.elim (fun h => by
    have : c.toNat < 0xd800 := h
    omega) fun h => h.2
  rw [escaped, List.all_flatMap, List.all_eq_true]
  intro c _
  have hc := hsmall c
  split
  next hbasic => simpa [Piece.isPlain] using hbasic
  next hbasic =>
    simp only [List.all_cons, List.all_nil, Piece.isPlain, Bool.and_true, Bool.and_eq_true,
      decide_eq_true_eq]
    omega

theorem Piece.written_write {p : Piece} (h : p.isPlain = true) : p.Written p.write := by
  cases p with
  | char c =>
    simp only [isPlain, Bool.and_eq_true, decide_eq_true_eq] at h
    exact .plain h.1.1 h.1.2 h.2
  | unit u =>
    have hu : u < 0x10000 := by simpa [isPlain] using h
    have hsum : u / 0x1000 * 0x1000 + u / 0x100 % 16 * 0x100 + u / 0x10 % 16 * 0x10 +
        u % 16 = u := by omega
    have hdigit {n : Nat} (hn : n < 16) : IsHexDigit n (Nat.digitChar n) := ⟨hn, .inl rfl⟩
    have hwritten := Piece.Written.unit (hdigit (show u / 0x1000 < 16 by omega))
      (hdigit (Nat.mod_lt (u / 0x100) (by decide))) (hdigit (Nat.mod_lt (u / 0x10) (by decide)))
      (hdigit (Nat.mod_lt u (by decide)))
    rwa [hsum] at hwritten

theorem Token.written_write {t : Token} (h : t.isPlain = true) : t.Written t.write := by
  cases t with
  | number cs =>
    have hwhole : IsWhole cs := by
      simp only [isPlain, Bool.or_eq_true, Bool.and_eq_true, beq_iff_eq, bne_iff_ne,
        List.all_eq_true, Bool.not_eq_true', List.isEmpty_eq_false_iff] at h
      exact h.imp_right fun h => ⟨⟨h.1.1, h.1.2⟩, h.2⟩
    exact .number ⟨[], cs, [], [], by simp, .inl rfl, hwhole, .inl rfl, .inl rfl⟩
  | text ps =>
    have hall : ∀ p ∈ ps, p.isPlain = true := List.all_eq_true.1 h
    refine .text ?_
    clear h
    induction ps with
    | nil => exact .nil
    | cons p ps ih =>
      obtain ⟨hp, hps⟩ := List.forall_mem_cons.1 hall
      exact .cons (Piece.written_write hp) (ih hps)
  | bool b => cases b with
    | true => exact .yes
    | false => exact .no
  | objectOpen => exact .objectOpen
  | objectClose => exact .objectClose
  | arrayOpen => exact .arrayOpen
  | arrayClose => exact .arrayClose
  | colon => exact .colon
  | comma => exact .comma
  | null => exact .null

theorem laid_write {ts : List Token} (h : ∀ t ∈ ts, t.isPlain = true) :
    Laid ts (ts.flatMap Token.write) := by
  induction ts with
  | nil => exact .nil nofun
  | cons t ts ih =>
    obtain ⟨ht, hts⟩ := List.forall_mem_cons.1 h
    show Laid (t :: ts) ([] ++ t.write ++ ts.flatMap Token.write)
    exact .cons nofun (Token.written_write ht) (ih hts)

/-- **A plain value is held by the text of its words**, one behind another. -/
theorem holds_write (h : v.words.all Token.isPlain = true) :
    Holds (v.words.flatMap Token.write) v := laid_write (List.all_eq_true.1 h)

end LeaseLock.Json
