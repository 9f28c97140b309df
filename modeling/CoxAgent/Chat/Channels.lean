import CoxAgent.Lib.Text
import CoxAgent.State.Edit

-- The channels of the chat. Two rooms are there without being stored.

-- Letters and digits in lower case. What is between them becomes one dash.
def slugChars (out : List Char) (prevDash : Bool) : List Char → List Char
  | []      => out
  | c :: cs =>
    if c.isAlphanum then slugChars (out ++ [c.toLower]) false cs
    else if !prevDash && out ≠ [] then slugChars (out ++ ['-']) true cs
    else slugChars out prevDash cs

def slugify (name : String) : String :=
  .ofList <| (slugChars [] false (Text.trim name).toList).rdropWhile (· = '-')

def generalChannelRecord : Channel :=
  { id := generalChannel, name := "general", owner := "", kind := "general" }

def agentsChannelRecord : Channel :=
  { id := agentsChannel, name := "agents", owner := "", kind := "general" }

namespace Channel

variable (c : Channel) (user : String)

def isOpen : Bool :=
  c.id = generalChannel || c.id = agentsChannel

def canView : Bool :=
  c.isOpen || c.owner = user || user ∈ c.members

def canInvite : Bool :=
  c.isOpen || c.owner = user || user ∈ c.inviters || c.openInvite && user ∈ c.members

def canChangePrivacy : Bool :=
  c.id ≠ generalChannel

end Channel

-- What is not there yet goes to the end.
def pushMissing (l : List String) (m : String) : List String :=
  if m ∈ l then l else l ++ [m]

namespace Channels

-- The built-in rooms are answered first.
def channel (cs : List Channel) (id : String) : Option Channel :=
  if id = generalChannel then some generalChannelRecord
  else if id = agentsChannel then some agentsChannelRecord
  else cs.find? (·.id = id)

-- Change the first channel with the id, unless the change is refused.
def channelMut (missing id : String) (f : Channel → Except String Channel) :
    List Channel → List Channel × Except String Channel
  | []      => ([], .error missing)
  | c :: cs =>
    if c.id = id then
      match f c with
      | .ok c'   => (c' :: cs, .ok c')
      | .error e => (c :: cs, .error e)
    else
      let (cs, r) := channelMut missing id f cs
      (c :: cs, r)

def createChannelWithKind (now name owner kind : String) (cs : List Channel) :
    List Channel × Except String Channel :=
  let id := slugify name
  if id = "" then
    (cs, .error "channel name must contain letters or numbers")
  else if id = generalChannel || cs.any (·.id = id) then
    (cs, .error s!"channel #{id} already exists")
  else if kind ≠ "private" ∧ kind ≠ "public" then
    (cs, .error "kind must be 'private' or 'public'")
  else
    let ch : Channel := { id, name := Text.trim name, owner, members := [owner], createdAt := now, kind }
    (cs ++ [ch], .ok ch)

def createChannel (now name owner : String) (cs : List Channel) : List Channel × Except String Channel :=
  createChannelWithKind now name owner "private" cs

-- A room in a room starts with the members of the outer one.
def createSubChannel (now parentId name owner kind : String) (cs : List Channel) :
    List Channel × Except String Channel :=
  match cs.find? (·.id = parentId) with
  | none        => (cs, .error s!"no channel {parentId}")
  | some parent =>
    if !parent.canView owner then
      (cs, .error "you are not in that channel")
    else
      match createChannelWithKind now name owner kind cs with
      | (cs, .error e) => (cs, .error e)
      | (cs, .ok ch)   => cs |> channelMut "channel vanished" ch.id fun created =>
          .ok { created with
            parent  := parentId
            members := parent.members.foldl pushMissing created.members }

def updateChannelSettings (id : String) (kind : Option String) (openInvite : Option Bool) (topic : Option String) :
    List Channel → List Channel × Except String Channel :=
  channelMut s!"no channel {id}" id fun ch =>
    if kind.isSome && !ch.canChangePrivacy then
      .error "#general cannot be made private"
    else if kind.any fun k => k ≠ "private" ∧ k ≠ "public" then
      .error ("unknown channel kind " ++ kind.getD "")
    else
      .ok { ch with
        kind       := kind.getD ch.kind
        openInvite := openInvite.getD ch.openInvite
        topic      := topic.elim ch.topic fun t => .ofList ((Text.trim t).toList.take 200) }

def removeChannelMember (id user : String) : List Channel → List Channel × Except String Channel :=
  channelMut s!"no channel {id}" id fun ch =>
    if ch.owner = user then
      .error "the owner cannot be removed from their own channel"
    else
      .ok { ch with members := ch.members.filter (· ≠ user), inviters := ch.inviters.filter (· ≠ user) }

-- Some calls do not return the channel.
def withoutChannel (r : List Channel × Except String Channel) : List Channel × Except String Unit :=
  (r.1, r.2.map fun _ => ())

def inviteToChannel (channelId actor invitee : String) (cs : List Channel) : List Channel × Except String Unit :=
  withoutChannel <| cs |> channelMut "channel not found" channelId fun ch =>
    let invitee := Text.trim invitee
    if !ch.canInvite actor then
      .error "you don't have permission to invite to this channel"
    else if invitee = "" then
      .error "no user to invite"
    else if ch.owner ≠ invitee then
      .ok { ch with members := pushMissing ch.members invitee }
    else
      .ok ch

def delegateInvite (channelId actor grantee : String) (cs : List Channel) : List Channel × Except String Unit :=
  withoutChannel <| cs |> channelMut "channel not found" channelId fun ch =>
    let grantee := Text.trim grantee
    if ch.owner ≠ actor then
      .error "only the channel owner can delegate invite permission"
    else if grantee = "" then
      .error "no user to delegate to"
    else
      .ok { ch with members := pushMissing ch.members grantee, inviters := pushMissing ch.inviters grantee }

end Channels

-- The calls that change the channels, with the time of each.
inductive ChannelCall where
  | create         (now name owner : String)
  | createWithKind (now name owner kind : String)
  | createSub      (now parentId name owner kind : String)
  | settings       (id : String) (kind : Option String) (openInvite : Option Bool) (topic : Option String)
  | remove         (id user : String)
  | invite         (channelId actor invitee : String)
  | delegate       (channelId actor grantee : String)
deriving DecidableEq, Repr

open Channels in
def ChannelCall.run (cs : List Channel) : ChannelCall → List Channel × Except String Unit
  | .create now name owner                  => withoutChannel (createChannel now name owner cs)
  | .createWithKind now name owner kind     => withoutChannel (createChannelWithKind now name owner kind cs)
  | .createSub now parentId name owner kind => withoutChannel (createSubChannel now parentId name owner kind cs)
  | .settings id kind openInvite topic      => withoutChannel (updateChannelSettings id kind openInvite topic cs)
  | .remove id user                         => withoutChannel (removeChannelMember id user cs)
  | .invite channelId actor invitee         => inviteToChannel channelId actor invitee cs
  | .delegate channelId actor grantee       => delegateInvite channelId actor grantee cs

namespace ProjectState

variable (s : ProjectState)

def channel (id : String) : Option Channel :=
  Channels.channel s.channels id

def withChannels (channels : List Channel) : ProjectState :=
  { s with channels }

-- A call changes nothing but the channels.
def channelCall (call : ChannelCall) : ProjectState × Except String Unit :=
  (s.withChannels (call.run s.channels).1, (call.run s.channels).2)

def channelCalls (calls : List ChannelCall) : ProjectState :=
  calls.foldl (fun s call => (s.channelCall call).1) s

end ProjectState
