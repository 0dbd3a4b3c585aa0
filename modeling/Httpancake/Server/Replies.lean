import Httpancake.Http.Replies
import Httpancake.Server.Conversation

/-! # What the peer of a connection can read

The replies of `Httpancake.Http.Replies` in the whole server: whatever was received on a connection,
and whatever else the server does, the stream of the connection is a sequence of whole replies, each
to a line of one of its chunks (`WebServer.replies`). -/

namespace Httpancake

open Bytes

/-- A first part of what is made of a list piece by piece. -/
theorem prefix_flatMap {α β : Type*} {f : α → List β} {l : List α} {said : List β}
    (h : said <+: l.flatMap f) :
    ∃ parts, said = parts.flatten ∧ List.Forall₂ (fun a part => part <+: f a) l parts := by
  induction l generalizing said with
  | nil => exact ⟨[], List.prefix_nil.mp h, .nil⟩
  | cons a l ih =>
    rw [List.flatMap_cons] at h
    rcases Nat.le_total said.length (f a).length with hle | hle
    · have hfirst := List.prefix_of_prefix_length_le h (List.prefix_append _ _) hle
      obtain ⟨parts, hnil, hparts⟩ := @ih [] List.nil_prefix
      exact ⟨said :: parts, by rw [List.flatten_cons, ← hnil, List.append_nil],
        .cons hfirst hparts⟩
    · obtain ⟨rest, rfl⟩ := List.prefix_of_prefix_length_le (List.prefix_append _ _) h hle
      obtain ⟨parts, rfl, hparts⟩ := ih ((List.prefix_append_right_inj _).mp h)
      exact ⟨f a :: parts, rfl, .cons List.prefix_rfl hparts⟩

namespace WebServer
variable {cfg : ServerConfig} {s : WebServer} {conn : Nat} {as : List ServerAction}
  {answered : List (List Access)}

/-- **Whole replies, and none unasked.** In every run of the server, the stream of a connection
consists of whole replies: those to each of its chunks, in the order in which these arrived. The
replies to a chunk answer some of the lines of it that ask for a file, one each and in order, and
each is about the file that its line asks for. -/
theorem replies (cfg : ServerConfig) (hadm : (webServer cfg).Admissible (.init cfg) as)
    (hrun : (webServer cfg).run (.init cfg) as = some (s, answered)) (hconn : conn < s.count) :
    ∃ parts : List (List Bytes), stream (s.conns conn) = parts.flatten.flatten ∧
      List.Forall₂ (fun (chunk : Chunk) msgs =>
          RepliesTo ⟨cfg.fileDir, (s.conns conn).connName, chunk.fs⟩ 0 (targets chunk.data) msgs)
        (heard cfg conn as) parts := by
  obtain ⟨said, promised, hsaid, hp, hfirsts, -⟩ :=
    said_of_converses (converses_of_run hadm hrun hconn)
  obtain ⟨parts, rfl, hparts⟩ := prefix_flatMap (hfirsts.trans hp.prefix_answers)
  refine ⟨parts, hsaid, hparts.imp fun chunk msgs hfirst => ?_⟩
  exact (answers_replies _ chunk.data).part hfirst

/-- One line asked for a file that is missing. -/
theorem replies_missing : ∃ s answered, ∃ (chunk : Chunk) (msgs : List Bytes),
    (webServer exampleConfig).run (.init exampleConfig) requested = some (s, answered) ∧
    heard exampleConfig 0 requested = [chunk] ∧
    stream (s.conns 0) = msgs.flatten ∧ stream (s.conns 0) ≠ [] ∧
    RepliesTo ⟨exampleConfig.fileDir, (s.conns 0).connName, chunk.fs⟩ 0 [ascii "/x.c"] msgs := by
  have hadm : (webServer exampleConfig).Admissible (.init exampleConfig) requested := by
    decide +kernel
  have hend : ∃ r ∈ (webServer exampleConfig).run (.init exampleConfig) requested,
      0 < r.1.count ∧ stream (r.1.conns 0) ≠ [] := by
    decide +kernel
  obtain ⟨⟨s, answered⟩, hrun, hcount, hstream⟩ := hend
  obtain ⟨parts, hsaid, hparts⟩ := replies exampleConfig hadm hrun hcount
  have hheard : (heard exampleConfig 0 requested).map (fun chunk => targets chunk.data) =
      [[ascii "/x.c"]] := by decide +kernel
  obtain ⟨chunk, hchunk, htargets⟩ := List.map_eq_singleton_iff.mp hheard
  rw [hchunk] at hparts
  obtain ⟨msgs, rest, hmsgs, hnil, rfl⟩ := List.forall₂_cons_left_iff.mp hparts
  obtain rfl := List.forall₂_nil_left_iff.mp hnil
  rw [htargets] at hmsgs
  rw [List.flatten_singleton] at hsaid
  exact ⟨s, answered, chunk, msgs, hrun, hchunk, hsaid, hstream, hmsgs⟩

end WebServer
end Httpancake
