import HiveForum.Proofs.Forum.Run

/-!
# Counts agree with records

The counts of an item are changed by each operation together with the record that it writes, from
what it read before. Whatever comes between the reading and the writing, and whether or not an
operation learns what has become of its call, the counts are those of the records.

## Main definitions

* `Forum.Orderly`: no identifier is given out twice, and the numbers are in range.

## Main results

* `Forum.counts_agree`: in every forum that is reached, the counts of an item that is not deleted
  are the numbers of the records on it.
-/

namespace HiveForum

open Program

/-- No identifier was given out twice, and the numbers of records and of writes are in range. -/
structure Forum.Orderly (forum : Forum) : Prop where
  ids : (forum.created.map (·.id)).Nodup
  range : forum.store.InRange

/-- Operations are run side by side on the empty forum. Their calls may be refused, or carried out
and the reply lost, and come in any order. The counts of every item agree with the records on it,
unless one of the operations deletes the item or the post that it is under; and no user has voted
both for and against an item. -/
theorem Forum.counts_agree {site : Site} {invocations : List Invocation} {pool : Thread.Pool}
    {forum : Forum} {key : ContentKey} {item : ContentItem}
    (run : Thread.Pool.Steps ((site.responses .wild).within Orderly)
      (Invocation.pool invocations) .blank pool forum)
    (stored : forum.store.item? key = some item)
    (undeleted : ∀ invocation ∈ invocations,
      ¬invocation.operation.Deletes forum.created item.asCreated) :
    item.Agrees forum.store ∧
      ∀ record ∈ forum.store.records, ¬(record.upVoted = true ∧ record.downVoted = true) := by
  have sound : forum.Sound ⟨site, forum.created, fun item => ∀ invocation ∈ invocations,
      ¬invocation.operation.Deletes forum.created item⟩ :=
    Sound.of_run run (fun _ orderly => orderly.ids) (fun _ orderly _ _ => orderly.range)
      fun _ spared => spared
  refine ⟨sound.counts key item stored undeleted, fun record hrecord => ?_⟩
  obtain ⟨key, hkey⟩ := StoreState.mem_records_iff.1 hrecord
  exact (sound.records key record hkey).2.2

namespace Sample

/-- The member writes the post and votes for it. -/
def invocations : List Invocation :=
  [⟨{}, 0, .createPost caller post.hive "body" []⟩,
    ⟨{}, 0, .vote caller ⟨post.hive, post.key⟩ .addUp⟩]

/-- A post is written and voted for. -/
theorem counts_agree_voted :
    votedForum.store.item? post.key = some votedPost ∧
      (∀ invocation ∈ invocations,
        ¬invocation.operation.Deletes votedForum.created votedPost.asCreated) ∧
      votedPost.Agrees votedForum.store ∧
      ∀ record ∈ votedForum.store.records,
        ¬(record.upVoted = true ∧ record.downVoted = true) := by
  have blank : Forum.blank.Orderly := ⟨.nil, by decide, by decide⟩
  have posted : forum.Orderly := ⟨by decide, by decide, by decide⟩
  have last : votedForum.Orderly := ⟨by decide, by decide, by decide⟩
  have undeleted : ∀ invocation ∈ invocations,
      ¬invocation.operation.Deletes votedForum.created votedPost.asCreated := by
    simp [invocations, Operation.Deletes]
  have member : site.directory.checkMember caller post.hive = .ok .owner := rfl
  have write : Thread.Steps ((site.responses .wild).within Forum.Orderly)
      (.running (createPost caller post.hive "body" [])) .blank (.running (.done post)) forum :=
    createPost_steps 0 member rfl rfl rfl blank posted
  have run : Thread.Pool.Steps ((site.responses .wild).within Forum.Orderly)
      (Invocation.pool invocations) .blank
      [⟨_, .running (.done post)⟩, ⟨_, .running (.done voted.written)⟩] votedForum :=
    (Thread.Pool.Steps.of_thread write [] _).trans (.of_thread (vote_steps posted last) [⟨_, _⟩] [])
  have stored : votedForum.store.item? post.key = some votedPost := rfl
  exact ⟨stored, undeleted, Forum.counts_agree run stored undeleted⟩

end Sample

end HiveForum
