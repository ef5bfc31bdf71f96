import CandleAuction.Proofs.Disputes
import CandleAuction.Proofs.Honesty

/-!
# Lists that were right when they were posted

A right list stays right in its round, and its proposal stands unless other bytes
with its commitment bring it down. So as long as no two rounds share their
entropy and no two logged lists collide, a live proposal with the commitment of
a right one is that very proposal.
-/

namespace CandleAuction

/-- The round and the bytes of a call that are hashed with the round's entropy. -/
def Call.committed? : Call → Option (UInt64 × List UInt8)
  | proposeWinners id encoding _ _ | challenge id encoding _ _ => some (id, encoding)
  | _ => none

namespace Chain

variable {c : Chain} {id : UInt64} {r : Auction} {p : Proposal} {s : Submission}
  {word entropy : Word} {close : UInt32} {encoding : List UInt8} {logging : Bool}
  {sender : Address} {value : UInt64} {call : Call}

/-- The log holds a list for a round. -/
def Lists (c : Chain) (id : UInt64) (encoding : List UInt8) : Prop :=
  ∃ entry ∈ c.log.toList, entry.2.committed? = some (id, encoding)

theorem Posts.lists (posts : c.Posts id p encoding) : c.Lists id encoding := by
  obtain ⟨before, after, split, -⟩ := posts
  exact ⟨(p.proposer, .proposeWinners id encoding p.commitment p.total), by simp [split], rfl⟩

theorem Lists.submit (lists : c.Lists id encoding) :
    (c.submit logging sender value call).chain.Lists id encoding := by
  obtain ⟨entry, member, committed⟩ := lists
  refine ⟨entry, ?_, committed⟩
  rw [submit_log]
  exact List.mem_append_left _ member

theorem lists_of_challenges
    (challenges : (c.serves logging sender value call).Challenges id encoding) :
    (c.submit logging sender value call).chain.Lists id encoding := by
  obtain ⟨named, disputed, called, accepted⟩ := challenges
  obtain ⟨outcome, accepted⟩ := Option.isSome_iff_exists.mp accepted
  refine ⟨(sender, call), ?_, by rw [show call = _ from called]; rfl⟩
  rw [submit_log, Served.logged?, accepted]
  simp [serves, context]

/-- A right submission that has been posted for a round. Its proposal stands, unless other bytes
with the same commitment have brought it down. -/
structure Recorded (c : Chain) (id : UInt64) (r : Auction) (s : Submission) (entropy : Word)
    (close : UInt32) : Prop where
  found : c.house.auction? id = some r
  honest : s.Honest r (c.house.ledger id) entropy close
  listed : c.Lists id s.encoding
  standing : r.Stands s.commitment s.total ∨
    ∃ encoding, c.Lists id encoding ∧ s.Collides entropy encoding

theorem Recorded.submit (recorded : c.Recorded id r s entropy close) (sound : c.Sound)
    (unfaulted : Unfaulted (c.submit logging sender value call)) :
    ∃ r', (c.submit logging sender value call).chain.Recorded id r' s entropy close := by
  have orderly := sound.coherent.toOrderly
  have answered : (c.serves logging sender value call).Answered := by
    intro fault stopped
    exact unfaulted fault (submit_result.trans stopped)
  have run : Run c.house [c.serves logging sender value call]
      (c.submit logging sender value call).chain.house := by
    rw [submit_house]
    exact .step _ .start answered
  obtain ⟨r', found'⟩ := run.exists_auction orderly recorded.found
  have honest := run.honest sound.coherent recorded.found recorded.honest found'
  refine ⟨r', found', honest, recorded.listed.submit, ?_⟩
  rcases recorded.standing with stands | ⟨encoding, lists, collides⟩
  · by_cases challenged : ∃ encoding, (c.serves logging sender value call).Challenges id encoding
    · obtain ⟨encoding, challenges⟩ := challenged
      obtain ⟨_, _, _, _, _, _, _, _, again, overturns⟩ := challenges.overturns
      cases recorded.found.symm.trans again
      have indexed := (sound.coherent.rounds id r recorded.found).indexed
      exact .inr ⟨encoding, lists_of_challenges challenges,
        stands.collides recorded.honest indexed overturns⟩
    · obtain ⟨_, again, stands⟩ := run.stands orderly recorded.found stands
        (by simpa using challenged)
      cases found'.symm.trans again
      exact .inl stands
  · exact .inr ⟨encoding, lists.submit, collides⟩

/-- A commitment that was posted with a right list and total. -/
def Remembers (c : Chain) (word : Word) : Prop :=
  ∃ id r s entropy close, s.commitment = word ∧ c.Recorded id r s entropy close

theorem Remembers.submit (remembers : c.Remembers word) (sound : c.Sound)
    (unfaulted : Unfaulted (c.submit logging sender value call)) :
    (c.submit logging sender value call).chain.Remembers word := by
  obtain ⟨id, r, s, entropy, close, same, recorded⟩ := remembers
  obtain ⟨r', recorded⟩ := recorded.submit sound unfaulted
  exact ⟨id, r', s, entropy, close, same, recorded⟩

theorem Remembers.of_eq {c' : Chain} (remembers : c.Remembers word) (house : c'.house = c.house)
    (log : c'.log = c.log) : c'.Remembers word := by
  obtain ⟨id, r, s, entropy, close, same, found, honest, listed, standing⟩ := remembers
  have lists : ∀ {id encoding}, c'.Lists id encoding ↔ c.Lists id encoding := by
    intro id encoding
    rw [Lists, log, Lists]
  refine ⟨id, r, s, entropy, close, same, ?_, ?_, lists.mpr listed, ?_⟩
  · rw [house]
    exact found
  · rw [house]
    exact honest
  · simp only [lists]
    exact standing

theorem Right.remembers (right : c.Right id r p) (sound : c.Sound)
    (found : c.house.auction? id = some r) (stored : r.phase = .winnersProposed)
    (live : r.proposal = some p) : c.Remembers p.commitment := by
  obtain ⟨encoding, winners, close, posts, listed, resolved, correct⟩ := right
  obtain ⟨entropy, drawn, opened⟩ := sound.opened found live posts
  exact ⟨id, r, ⟨id, winners, encoding, p.commitment, p.total⟩, entropy, close, rfl, found,
    ⟨drawn, resolved, listed, opened, correct⟩, posts.lists, .inl ⟨stored, p, live, rfl, rfl⟩⟩

/-- Two rounds have been given the same entropy. -/
def Redrawn (c : Chain) : Prop :=
  ∃ id other r r', id ≠ other ∧ c.house.auction? id = some r ∧
    c.house.auction? other = some r' ∧ r.entropy.isSome = true ∧ r.entropy = r'.entropy

/-- Bytes that are hashed for a logged list. -/
def Hashed (c : Chain) (bytes : List UInt8) : Prop :=
  ∃ id encoding r entropy, c.Lists id encoding ∧ c.house.auction? id = some r ∧
    r.entropy = some entropy ∧ bytes = encoding ++ entropy.toList

/-- No two logged lists collide. -/
def Binding (c : Chain) : Prop :=
  ∀ first second, c.Hashed first → c.Hashed second → Keccak.hash first = Keccak.hash second →
    first = second

/-- Where the hash keeps the rounds apart, a live proposal with a remembered commitment is
right. -/
theorem Remembers.right (remembers : c.Remembers p.commitment) (sound : c.Sound)
    (apart : ¬ c.Redrawn) (binding : c.Binding) (found : c.house.auction? id = some r)
    (live : r.proposal = some p) : c.Right id r p := by
  obtain ⟨other, r', s, entropy', close, same, recorded⟩ := remembers
  have honest := recorded.honest
  obtain ⟨encoding, winners, posts, listed⟩ := sound.posted found live
  obtain ⟨entropy, drawn, opened⟩ := sound.opened found live posts
  have here : c.Hashed (encoding ++ entropy.toList) :=
    ⟨id, encoding, r, entropy, posts.lists, found, drawn, rfl⟩
  have there : ∀ {bytes}, c.Lists other bytes → c.Hashed (bytes ++ entropy'.toList) :=
    fun {bytes} lists => ⟨other, bytes, r', entropy', lists, recorded.found, honest.drawn, rfl⟩
  obtain ⟨rfl, rfl⟩ := eq_of_append_entropy (binding _ _ here (there recorded.listed)
    (opened.trans (same.symm.trans honest.committed.symm)))
  have one : id = other := by_contra fun ne =>
    apart ⟨id, other, r, r', ne, found, recorded.found, by rw [drawn]; rfl,
      drawn.trans honest.drawn.symm⟩
  subst one
  cases found.symm.trans recorded.found
  rcases recorded.standing with stands | ⟨bytes, lists, other, collides⟩
  · obtain ⟨p', live', -, total⟩ := stands.live
    cases live.symm.trans live'
    cases listed.symm.trans honest.listed
    exact ⟨s.encoding, s.winners, close, posts, listed, honest.resolved, total ▸ honest.correct⟩
  · exact absurd (eq_of_append_entropy (binding _ _ (there lists) (there recorded.listed)
      collides)).1 other

end Chain

end CandleAuction
