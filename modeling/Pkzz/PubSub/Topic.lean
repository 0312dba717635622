import Pkzz.Core.Ids

/-!
# Event topics

`buzz-pubsub`'s `topic.rs`. Events are published to one Redis channel for each channel of a
community, and to one more for what belongs to none of them. The name of the channel is the
only thing two pods share, so it has to say which topic it is for.
-/

namespace Pkzz.PubSub

open Pkzz.Core Pkzz.Lib

def BUZZ_PREFIX : String := "buzz"

/-- A tenant-local event routing scope. -/
inductive EventTopic where
  | channel (id : Uuid)
  | global
  deriving DecidableEq

/-- A topic with its server-resolved community. -/
structure EventTopicKey where
  communityId : CommunityId
  topic : EventTopic
  deriving DecidableEq

/-- `PubSubError::InvalidChannelKey`, the one error of this file. -/
structure InvalidChannelKey where
  channel : String
  deriving DecidableEq

namespace EventTopicKey

/-- The scope, as the last parts of the name. -/
def scope : EventTopic → String
  | .channel channelId => "channel" ++ ":" ++ channelId.toString
  | .global => "global"

def redisChannel (key : EventTopicKey) : String :=
  BUZZ_PREFIX ++ ":" ++ (key.communityId.uuid.toString ++ ":" ++ scope key.topic)

/-- The `match scope` of `parse_redis_channel`, on the parts behind the community. -/
def parseScope : List String → Option EventTopic
  | ["global"] => some .global
  | ["channel", channelId] => (Uuid.parse channelId).map .channel
  | _ => none

def parseRedisChannel (channel : String) : Except InvalidChannelKey EventTopicKey :=
  match Str.split channel ':' with
  | first :: community :: rest =>
    if first ≠ BUZZ_PREFIX then .error ⟨channel⟩
    else
      match Uuid.parse community, parseScope rest with
      | some communityId, some topic => .ok ⟨⟨communityId⟩, topic⟩
      | _, _ => .error ⟨channel⟩
  | _ => .error ⟨channel⟩

end EventTopicKey

/-! ## Names are read back -/

theorem colon_notMem_toString (u : Uuid) : ':' ∉ u.toString.toList := by
  intro h
  rcases Uuid.isLowerHexdigit_toString h with h | h
  · exact absurd h (by decide)
  · exact absurd h (by decide)

theorem parseScope_scope (topic : EventTopic) :
    EventTopicKey.parseScope (Str.split (EventTopicKey.scope topic) ':') = some topic := by
  cases topic with
  | global =>
    rw [EventTopicKey.scope, Str.split_of_notMem (by decide)]
    rfl
  | channel id =>
    rw [EventTopicKey.scope, Str.split_append (by decide) (by decide),
      Str.split_of_notMem (colon_notMem_toString id)]
    simp only [EventTopicKey.parseScope]
    rw [Uuid.parse_toString, Option.map_some]

/-- **Every channel name is read back as its topic.** -/
theorem parse_redisChannel (key : EventTopicKey) :
    EventTopicKey.parseRedisChannel key.redisChannel = .ok key := by
  have hsplit : Str.split key.redisChannel ':'
      = BUZZ_PREFIX :: key.communityId.uuid.toString :: Str.split
        (EventTopicKey.scope key.topic) ':' := by
    rw [EventTopicKey.redisChannel, Str.split_append (by decide) (by decide),
      Str.split_append (colon_notMem_toString _) (by decide)]
  unfold EventTopicKey.parseRedisChannel
  rw [hsplit]
  simp only
  rw [if_neg (by simp), Uuid.parse_toString, parseScope_scope]

/-- Two topics never share a channel name. -/
theorem redisChannel_inj {a b : EventTopicKey} (h : a.redisChannel = b.redisChannel) : a = b := by
  have hparse := parse_redisChannel a
  rw [h, parse_redisChannel b] at hparse
  exact (Except.ok.inj hparse).symm

end Pkzz.PubSub
