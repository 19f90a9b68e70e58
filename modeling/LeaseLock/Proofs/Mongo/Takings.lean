import LeaseLock.Proofs.Mongo.Updates
import LeaseLock.Proofs.Protection

/-!
# A document is taken as a whole or not at all

The server computes the fields of a document one by one, and the condition stands in four of them.
This module says what comes out for the document as a whole, whatever is stored.

**Open documents** (`IsOpen`). There is no document, or it has no end, or it has ended, or it
carries our owner. This is said of the stored fields, not of the expressions.

**What comes out.** An open document becomes ours in all four fields (`Bson.IsTaken`); any other one
keeps all four (`heldFields`). Either way the rest of it follows the stored one (`Bson.Follows`).
The end has to be a time that the server can write; if the lease is so long that it is not, the
server refuses to take the document, and changes nothing.

Owners, names and tokens are texts of any kind, since they are literals in the expressions.

Main result: `taken_or_kept`.
-/

namespace LeaseLock.Mongo

variable {fs : List (String × Bson)} {o : Options} {token collection : String} {now : Int}
  {stored : Option (List (String × Bson))}

/-! ## Open documents -/

/-- The end of a stored document is a time, or there is none. -/
inductive HasEnd (fs : List (String × Bson)) : Prop
  | missing : fs.lookup "expiredAt" = none → HasEnd fs
  | null : fs.lookup "expiredAt" = some .null → HasEnd fs
  | date {millis : Int} : fs.lookup "expiredAt" = some (.date millis) → HasEnd fs

/-- Nobody else has a live document. -/
inductive IsOpen (o : Options) (now : Int) : Option (List (String × Bson)) → Prop
  | absent : IsOpen o now none
  /-- It has no end. -/
  | missing {fs : List (String × Bson)} : fs.lookup "expiredAt" = none → IsOpen o now (some fs)
  | null {fs : List (String × Bson)} : fs.lookup "expiredAt" = some .null → IsOpen o now (some fs)
  | ended {fs : List (String × Bson)} {millis : Int} :
      fs.lookup "expiredAt" = some (.date millis) → millis ≤ now → IsOpen o now (some fs)
  | own {fs : List (String × Bson)} :
      fs.lookup "ownerID" = some (.text o.owner) → IsOpen o now (some fs)

theorem isOwnedBy_iff {owner : String} :
    (Bson.document fs).isOwnedBy owner = true ↔ fs.lookup "ownerID" = some (.text owner) := by
  rw [Bson.isOwnedBy, decide_eq_true_iff, textField?_eq_some]
  rfl

theorem end?_document (fs : List (String × Bson)) : (Bson.document fs).end? =
    match fs.lookup "expiredAt" with
    | none | some .null => some 0
    | some (.date millis) => some millis
    | some _ => none := rfl

theorem HasEnd.exists_end (h : HasEnd fs) : ∃ e, (Bson.document fs).end? = some e := by
  rw [end?_document]
  cases h with
  | missing h | null h | date h => exact ⟨_, by rw [h]⟩

/-- The condition of the pipeline holds of open documents, and of no others. -/
theorem isOpen_iff {e : Int} (hnow : 0 ≤ now) (he : (Bson.document fs).end? = some e) :
    IsOpen o now (some fs) ↔ e ≤ now ∨ (Bson.document fs).isOwnedBy o.owner = true := by
  rw [isOwnedBy_iff]
  rw [end?_document] at he
  constructor
  · intro h
    cases h with
    | missing h | null h =>
      rw [h] at he
      cases he
      exact .inl hnow
    | ended h hle =>
      rw [h] at he
      cases he
      exact .inl hle
    | own h => exact .inr h
  · rintro (hle | howner)
    · split at he
      next h => exact .missing h
      next h => exact .null h
      next h =>
        cases he
        exact .ended h hle
      · cases he
    · exact .own howner

/-! ## What comes out -/

/-- The document was taken at `now`, with a token. -/
structure Bson.IsTaken (b : Bson) (o : Options) (token : String) (now : Int) : Prop where
  owner : b.field? "ownerID" = some (.text o.owner)
  token : b.field? "lockId" = some (.text token)
  expiredAt : b.field? "expiredAt" = some (.date (now + o.wholeMillis))
  updatedAt : b.field? "updatedAt" = some (.date now)

/-- The fields that change hands with a document. -/
def heldFields : List String := ["ownerID", "lockId", "expiredAt", "updatedAt"]

/-- The document goes by the name of the lock, and its other fields are those of the stored one. -/
structure Bson.Follows (b stored : Bson) (o : Options) (now : Int) : Prop where
  name : b.field? "name" = some (.text o.name)
  /-- The time at which the document was made stays. -/
  created : ∀ v, stored.field? "createdAt" = some v → v ≠ .null → b.field? "createdAt" = some v
  /-- Without such a time it counts as made now. -/
  made : stored.field? "createdAt" = none ∨ stored.field? "createdAt" = some .null →
    b.field? "createdAt" = some (.date now)
  others : ∀ f, f ≠ "name" → f ≠ "createdAt" → f ∉ heldFields → b.field? f = stored.field? f

theorem created_of_field {b v : Bson} (h : b.field? "createdAt" = some v) (hv : v ≠ .null) :
    b.created now = v := by
  unfold Bson.created
  rw [h]
  split
  next heq => cases heq
  next heq =>
    cases heq
    exact absurd rfl hv
  next heq => exact (Option.some.inj heq).symm

theorem created_of_no_field {b : Bson}
    (h : b.field? "createdAt" = none ∨ b.field? "createdAt" = some .null) :
    b.created now = .date now := by
  unfold Bson.created
  rcases h with h | h <;> rw [h]

/-- A document that is given its name and the time at which it was made, and is otherwise only
changed in the fields that change hands, follows the stored one. -/
theorem follows_of_fields {b stored : Bson} (hname : b.field? "name" = some (.text o.name))
    (hcreated : b.field? "createdAt" = some (stored.created now))
    (hothers : ∀ f, f ≠ "name" → f ≠ "createdAt" → f ∉ heldFields → b.field? f = stored.field? f) :
    b.Follows stored o now where
  name := hname
  created v hv hne := by rw [hcreated, created_of_field hv hne]
  made hnone := by rw [hcreated, created_of_no_field hnone]
  others := hothers

theorem isTaken_takenFields (o : Options) (token : String) (now : Int)
    (fs : List (String × Bson)) :
    (Bson.document (takenFields o token now fs)).IsTaken o token now := by
  constructor <;> simp [takenFields]

theorem follows_takenFields (o : Options) (token : String) (now : Int)
    (fs : List (String × Bson)) :
    (Bson.document (takenFields o token now fs)).Follows (.document fs) o now := by
  refine follows_of_fields (by simp [takenFields]) (by simp [takenFields]) ?_
  intro f hname hcreated hheld
  simp only [heldFields, List.mem_cons, List.not_mem_nil, not_or, or_false] at hheld
  obtain ⟨howner, htoken, hend, hupdated⟩ := hheld
  simp [takenFields, hname, hcreated, howner, htoken, hend, hupdated]

/-- The fields of a document that stays with its owner. -/
def keptFields (o : Options) (now : Int) (fs : List (String × Bson)) : List (String × Bson) :=
  setField "createdAt" ((Bson.document fs).created now) (setField "name" (.text o.name) fs)

theorem field?_keptFields {f : String} (hf : f ∈ heldFields) :
    (Bson.document (keptFields o now fs)).field? f = (Bson.document fs).field? f := by
  simp only [heldFields, List.mem_cons, List.not_mem_nil, or_false] at hf
  rcases hf with rfl | rfl | rfl | rfl <;> simp [keptFields]

theorem follows_keptFields (o : Options) (now : Int) (fs : List (String × Bson)) :
    (Bson.document (keptFields o now fs)).Follows (.document fs) o now := by
  refine follows_of_fields (by simp [keptFields]) (by simp [keptFields]) ?_
  intro f hname hcreated _
  simp [keptFields, hname, hcreated]

theorem isTime_of_check (h : o.check = .ok ()) (hnow : 0 ≤ now)
    (hlast : now ≤ maxInt64 - maxLease.millis) : IsTime (now + o.wholeMillis) := by
  have hle : o.wholeMillis ≤ maxLease.millis := by
    have usable := Options.check_eq_ok_iff.1 h
    rw [usable.wholeMillis_eq]
    exact Nat.div_le_div_right usable.lease_le
  have hmax : maxLease.millis = 86400000 := by decide
  simp only [IsTime, maxInt64, hmax] at *
  omega

/-- An open document comes out as ours, unless its end would be no time. -/
theorem taken_of_open {e : Int} (he : (Bson.document fs).end? = some e)
    (h : e ≤ now ∨ (Bson.document fs).isOwnedBy o.owner = true) :
    if IsTime (now + o.wholeMillis) then
      ∃ b, update? now (.document fs) (takePipeline o token) = some b ∧ b.IsTaken o token now ∧
        b.Follows (.document fs) o now
    else update? now (.document fs) (takePipeline o token) = none := by
  rw [takePipeline_of_takeable he h]
  split
  · exact ⟨_, rfl, isTaken_takenFields o token now fs, follows_takenFields o token now fs⟩
  · rfl

theorem kept_of_not_open {e : Int} (he : (Bson.document fs).end? = some e) (hlive : now < e)
    (howner : (Bson.document fs).isOwnedBy o.owner = false) :
    ∃ b, update? now (.document fs) (takePipeline o token) = some b ∧
      (∀ f ∈ heldFields, b.field? f = (Bson.document fs).field? f) ∧
      b.Follows (.document fs) o now :=
  ⟨_, takePipeline_of_held he hlive howner, fun _ => field?_keptFields,
    follows_keptFields o now fs⟩

/-- **A document is taken as a whole or not at all.** Whatever is stored under the name of a lock,
with an end that is a time or none, and whatever the owner, the name and the token look like: an
open document comes out as ours, with its owner, token, end and time of writing together, unless no
time is that late, and then the server refuses; any other document comes out with all four as they
were stored. In both cases it goes by the name of the lock, the time at which it was made stays, and
so does every other field. With accepted options the server need not refuse before the last day of
its clock. -/
theorem taken_or_kept (o : Options) (collection token : String) {now : Int} (hnow : 0 ≤ now)
    (stored : Option (List (String × Bson))) (hend : ∀ fs, stored = some fs → HasEnd fs) :
    let before := (stored.map Bson.document).getD (Command.take collection o token).filter
    let after := update? now before (takePipeline o token)
    (IsOpen o now stored →
      if IsTime (now + o.wholeMillis) then
        ∃ b, after = some b ∧ b.IsTaken o token now ∧ b.Follows before o now
      else after = none) ∧
    (¬IsOpen o now stored →
      ∃ b, after = some b ∧ (∀ f ∈ heldFields, b.field? f = before.field? f) ∧
        b.Follows before o now) ∧
    (o.check = .ok () → now ≤ maxInt64 - maxLease.millis → IsTime (now + o.wholeMillis)) := by
  refine ⟨?_, ?_, fun hc hlast => isTime_of_check hc hnow hlast⟩
  · intro hopen
    cases stored with
    | none => exact taken_of_open (show _ = some 0 from rfl) (.inl hnow)
    | some fs =>
      obtain ⟨e, he⟩ := (hend fs rfl).exists_end
      exact taken_of_open he ((isOpen_iff hnow he).1 hopen)
  · intro hheld
    cases stored with
    | none => exact absurd .absent hheld
    | some fs =>
      obtain ⟨e, he⟩ := (hend fs rfl).exists_end
      rw [isOpen_iff hnow he, not_or, Bool.not_eq_true, Int.not_le] at hheld
      exact kept_of_not_open he hheld.1 hheld.2

/-- An owner, a name and a token that look like fields and variables. -/
def dollarOptions : Options := { owner := "$ownerID", name := "$$NOW" }

/-- A document of another owner, with an end. -/
def othersDocument (expiredAt : Int) : List (String × Bson) :=
  [("_id", .text "$$NOW"), ("ownerID", .text "other"), ("lockId", .text "t"),
    ("expiredAt", .date expiredAt), ("createdAt", .date 1), ("updatedAt", .date 2),
    ("note", .bool true)]

/-- At its end the document of another owner is taken as a whole, and a millisecond before it stays
as it is. -/
theorem taken_or_kept_atItsEnd :
    (0 : Int) ≤ 500 ∧ HasEnd (othersDocument 500) ∧ HasEnd (othersDocument 501) ∧
    (∃ b, update? 500 (.document (othersDocument 500)) (takePipeline dollarOptions "$lockId") =
        some b ∧ b.IsTaken dollarOptions "$lockId" 500 ∧
        b.field? "createdAt" = some (.date 1)) ∧
    ∃ b, update? 500 (.document (othersDocument 501)) (takePipeline dollarOptions "$lockId") =
        some b ∧ b.field? "ownerID" = some (.text "other") ∧ b.field? "lockId" = some (.text "t") ∧
        b.field? "expiredAt" = some (.date 501) ∧ b.field? "name" = some (.text "$$NOW") := by
  have hnow : (0 : Int) ≤ 500 := by decide
  have hended : HasEnd (othersDocument 500) := .date rfl
  have hlive : HasEnd (othersDocument 501) := .date rfl
  refine ⟨hnow, hended, hlive, ?_, ?_⟩
  · obtain ⟨htaken, -, -⟩ := taken_or_kept dollarOptions "locks" "$lockId" hnow
      (some (othersDocument 500)) (by rintro _ ⟨⟩; exact hended)
    obtain ⟨b, hb, hours, hfollows⟩ := htaken (.ended rfl (Int.le_refl 500))
    exact ⟨b, hb, hours, hfollows.created _ rfl nofun⟩
  · obtain ⟨-, hkept, -⟩ := taken_or_kept dollarOptions "locks" "$lockId" hnow
      (some (othersDocument 501)) (by rintro _ ⟨⟩; exact hlive)
    have hheld : ¬IsOpen dollarOptions 500 (some (othersDocument 501)) := by
      rw [isOpen_iff hnow (show _ = some 501 from rfl)]
      decide
    obtain ⟨b, hb, hsame, hfollows⟩ := hkept hheld
    refine ⟨b, hb, hsame _ (by decide), hsame _ (by decide), hsame _ (by decide), hfollows.name⟩

end LeaseLock.Mongo
