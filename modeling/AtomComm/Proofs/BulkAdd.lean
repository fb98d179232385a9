import AtomComm.Sanity.Uploads

/-! The members that an upload brings into a split. Each insert of a batch looks at the rows
that came before it, so a name gets its row where it stands first in the list, whatever the
list's length; a fresh upload id then finds these rows and no others. -/

namespace AtomComm.LootSplit

section Query
variable {db : DB} {splitId uploadId : String} {g : ℤ}

/-- What the page of an upload shows, after what earlier uploads of that id brought. -/
theorem withUploadId_insertAll (splitId uploadId : String) (g : ℤ) (db : DB)
    (added : List String) :
    getLootSplitPlayersWithUploadId { db with
        lootsplitPlayers := db.lootsplitPlayers.insertAll
          (added.map (splitRow uploadId splitId g)) } uploadId splitId g =
      getLootSplitPlayersWithUploadId db uploadId splitId g ++ added := by
  have hall : (added.map (splitRow uploadId splitId g)).filter (fun r =>
      r.uploadId = uploadId && r.splitId = splitId && r.guildId = g) =
        added.map (splitRow uploadId splitId g) := by
    apply List.filter_eq_self.2
    intro r hr
    obtain ⟨w, -, rfl⟩ := List.mem_map.1 hr
    simp [splitRow]
  unfold getLootSplitPlayersWithUploadId
  rw [Table.select, Table.vals_insertAll, List.filter_append, hall, List.map_append, List.map_map]
  congr 1
  exact List.map_id _

theorem withUploadId_fresh (h : ∀ m ∈ db.lootsplitPlayers.vals, m.uploadId ≠ uploadId) :
    getLootSplitPlayersWithUploadId db uploadId splitId g = [] := by
  unfold getLootSplitPlayersWithUploadId
  rw [List.map_eq_nil_iff, Table.select, List.filter_eq_nil_iff]
  intro m hm
  simp [h m hm]

end Query

/-- The members of a list that an upload adds, what it leaves alone, and what it shows. -/
theorem bulk_add (uploadId splitId : String) (g : ℤ) (names : List String) (b : Bot) :
    let added := names.eraseDups.filter fun w =>
      (b.db.players.any fun r => r.username = w && r.guildId = g) &&
        !b.db.lootsplitPlayers.any fun m => m.splitId = splitId && m.username = w
    let r := Sql.run [] (addUsersToDatabase (addPlayersToLootSplit uploadId splitId · g)
      (batches [] names)) b
    r.1 = .ok () ∧
      r.2 = { b with db := { b.db with
        lootsplitPlayers := b.db.lootsplitPlayers.insertAll
          (added.map fun w => ⟨splitId, uploadId, w, .fin 0, false, g⟩)
        demo := r.2.db.demo } } ∧
      ((∀ m ∈ b.db.lootsplitPlayers.vals, m.uploadId ≠ uploadId) →
        getLootSplitPlayersWithUploadId r.2.db uploadId splitId g = added) := by
  intro added r
  have hrun : r = _ := run_addSplitPlayers uploadId splitId names g b
  refine ⟨by rw [hrun], by rw [hrun]; rfl, fun hfresh => ?_⟩
  have hshown := withUploadId_insertAll splitId uploadId g b.db (newMembers b.db splitId g names)
  rw [withUploadId_fresh hfresh, List.nil_append] at hshown
  rw [hrun]
  exact hshown

/-- Alice is in the split already, Bob comes twice and Zed is no player of the guild. -/
theorem bulk_add_mixed :
    let b := endState (opening ["Bob", "Carol"] ++ [does (.add "Alice" "U1")])
    getLootSplitPlayersWithUploadId (Sql.run [] (addUsersToDatabase
      (addPlayersToLootSplit "U2" "S" · 1) (batches [] ["Bob", "Zed", "Alice", "Bob", "Carol"]))
        b).2.db "U2" "S" 1 = ["Bob", "Carol"] :=
  ((bulk_add "U2" "S" 1 ["Bob", "Zed", "Alice", "Bob", "Carol"] _).2.2 (by decide +kernel)).trans
    (by decide +kernel)

end AtomComm.LootSplit
