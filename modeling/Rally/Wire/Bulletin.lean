import Rally.Match.Notice
import Rally.Text.Instant
import Rally.Wire.Words

/-!
The JSON of announcements.
-/

namespace Rally.Bulletin

open Text.Json

/-- Writes an announcement that was made at an instant. -/
def write (b : Bulletin) (at' : Instant) : List Char :=
  let time := ("timestamp", writeString (String.ofList at'.write))
  match b with
  | .score id scores =>
    writeObject [Wire.typeMember "score_updated", ("match_id", Wire.writeUuid id),
      ("score1", writeNat scores.left), ("score2", writeNat scores.right), time]
  | .finished id players scores winner reason hits isFinal =>
    writeObject [Wire.typeMember "match_finished", ("match_id", Wire.writeUuid id),
      ("player1_id", Wire.writeUuid players.left), ("player2_id", Wire.writeUuid players.right),
      ("score1", writeNat scores.left), ("score2", writeNat scores.right),
      ("winner_id", Wire.writeUuid winner), ("reason", writeString (Wire.reasonName reason)),
      ("hit_counts", writeArray [writeNat hits.left, writeNat hits.right]),
      ("is_tournament_final", writeBool isFinal), time]

end Rally.Bulletin
