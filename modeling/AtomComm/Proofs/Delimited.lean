import AtomComm.Proofs.Names
import AtomComm.Proofs.TimedRoles

/-! Rows put into one text with bars in between, and cut again where they are read: the
roles that have run out, the users of an upload and the members of a party. The cut is made
at the first three bars there are, and what is empty at the end is dropped. -/

namespace AtomComm

/-- The text before the first bars comes back. -/
def Uncut (name : String) : Prop :=
  ¬LootSplit.bars <:+: name.toList ∧ name.toList.getLast? ≠ some '|'

instance (name : String) : Decidable (Uncut name) := inferInstanceAs (Decidable (_ ∧ _))

theorem uncut_iff {name : String} (t : List Char) :
    Uncut name ↔ Text.Skips LootSplit.bars name.toList (LootSplit.bars ++ t) :=
  Text.skips_replicate_iff (k := 2) (q := '|') |>.symm

theorem uncut_of_head {name : String} {t : List Char}
    (h : (Text.split LootSplit.bars (name.toList ++ (LootSplit.bars ++ t)))[0]? =
      some name.toList) : Uncut name := by
  rw [uncut_iff t, ← Text.head_pieces_iff (by decide), List.head?_eq_getElem?]
  exact Text.getElem_pieces_of_split h

namespace LootSplit

/-- The two fields that the checker takes are those of the row. -/
def PlayerRole.Decodes (r : PlayerRole) : Prop :=
  (Text.split bars r.text)[0]?.bind Text.toInt = some r.userId ∧
    (Text.split bars r.text)[1]? = some r.roleName.toList

instance (r : PlayerRole) : Decidable r.Decodes := inferInstanceAs (Decidable (_ ∧ _))

theorem decodes_iff (r : PlayerRole) : r.Decodes ↔ Clean r.roleName := by
  constructor
  · rintro ⟨-, hname⟩
    have hid : Text.Skips bars (Text.ofInt r.userId) (bars ++ r.roleName.toList) :=
      Text.skips_of_not_mem (Text.not_mem_ofInt rfl (by decide))
    have hcut : Text.pieces bars 0 r.text =
        Text.ofInt r.userId :: Text.pieces bars 0 r.roleName.toList :=
      Text.pieces_append (by decide) hid
    have hrest := Text.getElem_pieces_of_split hname
    rw [hcut, List.getElem?_cons_succ, ← List.head?_eq_getElem?] at hrest
    refine ⟨(Text.head_pieces_self (by decide)).1 hrest, fun hempty => ?_⟩
    -- an empty name is dropped from the end
    rw [Text.split, hcut, hempty] at hname
    simp [Text.pieces, List.rdropWhile, Text.ofInt_ne_nil] at hname
  · intro h
    obtain ⟨rest, hs⟩ := split_text h
    rw [PlayerRole.Decodes, hs]
    exact ⟨Text.toInt_ofInt r.userId, rfl⟩

end LootSplit

namespace GuildBot

theorem not_mem_getStringFromInstant (t : ℤ) : '|' ∉ (getStringFromInstant t).toList := by
  have hpad : ∀ w n, '|' ∉ (LocalDateTime.pad w n).toList := by
    intro w n hmem
    cases isDigit_pad hmem
  simp only [getStringFromInstant, LocalDateTime.format, String.toList_append, List.mem_append,
    hpad, or_false, false_or]
  split <;> decide

theorem getStringFromInstant_ne_nil (t : ℤ) : (getStringFromInstant t).toList ≠ [] := by
  intro h
  simp [getStringFromInstant, LocalDateTime.format] at h

/-- A line whose second field is text without bars is read right if its name is uncut. -/
theorem readMember_eq_iff {line name second : String} {t : List Char}
    (hline : line.toList = name.toList ++ (LootSplit.bars ++ (second.toList ++ t)))
    (hbar : '|' ∉ second.toList) (hne : second.toList ≠ [])
    (ht : t = [] ∨ ∃ s, t = LootSplit.bars ++ s) :
    readMember line = some (name, second) ↔ Uncut name := by
  constructor
  · intro h
    unfold readMember at h
    split at h
    · rename_i p q rest hsplit
      obtain ⟨rfl, -⟩ := Prod.mk.inj (Option.some.inj h)
      have hname : p = (String.ofList p).toList := String.toList_ofList.symm
      apply uncut_of_head (t := second.toList ++ t)
      rw [← hline, ← hname]
      exact congrArg (·[0]?) hsplit
    · cases h
  · intro h
    obtain ⟨rest, hsplit⟩ := Text.split_front (by decide) (fun t => (uncut_iff t).1 h)
      (fun _ => Text.skips_of_not_mem hbar) (Text.skips_of_not_mem hbar) hne ht
    rw [← hline] at hsplit
    unfold LootSplit.bars at hsplit
    rw [readMember, hsplit]
    simp

theorem readUser_iff (user : String × ℤ) :
    readUser (userLine user) = some (user.1, getStringFromInstant user.2) ↔ Uncut user.1 :=
  readMember_eq_iff (by simp [userLine, LootSplit.bars]) (not_mem_getStringFromInstant _)
    (getStringFromInstant_ne_nil _) (.inl rfl)

theorem readMember_iff (member : String × Status × ℤ) :
    readMember (memberLine member) = some (member.1, member.2.1.text) ↔ Uncut member.1 :=
  readMember_eq_iff (by simp [memberLine, LootSplit.bars]) (text_clean _).2.1 (text_clean _).2.2
    (.inr ⟨(getStringFromInstant member.2.2).toList, rfl⟩)

end GuildBot

/-- The three encodings, for every id, role name, character name, status and date. -/
theorem delimited_rows_decode_iff (r : LootSplit.PlayerRole) (user : String × ℤ)
    (member : String × GuildBot.Status × ℤ) :
    (r.Decodes ↔ ¬LootSplit.bars <:+: r.roleName.toList ∧ r.roleName ≠ "") ∧
      (GuildBot.readUser (GuildBot.userLine user) =
        some (user.1, GuildBot.getStringFromInstant user.2) ↔ Uncut user.1) ∧
      (GuildBot.readMember (GuildBot.memberLine member) = some (member.1, member.2.1.text) ↔
        Uncut member.1) :=
  ⟨LootSplit.decodes_iff r, GuildBot.readUser_iff user, GuildBot.readMember_iff member⟩

/-- A bar at the end of a name goes over to the next field, and bars within one cut it. -/
theorem delimited_rows_lost :
    ¬LootSplit.PlayerRole.Decodes ⟨1, "raid|||lead", 0, 1⟩ ∧
      ¬LootSplit.PlayerRole.Decodes ⟨1, "", 0, 1⟩ ∧
      GuildBot.readMember (GuildBot.memberLine ("Bobby|", .present, 0)) =
        some ("Bobby", "|present") ∧
      GuildBot.readUser (GuildBot.userLine ("Bobby|", 0)) =
        some ("Bobby", "|01/01/1970 00:00:00") := by
  decide +kernel

end AtomComm
