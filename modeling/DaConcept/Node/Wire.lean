import DaConcept.Lib.Protobuf
import DaConcept.Node.Server

set_option autoImplicit false

/-! # Messages on the wire (`da-node/proto/sync.proto`)

How long the messages between nodes are. Neither `create_grpc_server` nor `PeerClient::connect`
changes what tonic decodes at most: a request that is longer does not get to its handler, and a
reply that is longer becomes an error of the call (`received`). -/

namespace DaConcept.Node

open Protobuf

/-! ## Lengths -/

def BlobMetadata.encodedLen (m : BlobMetadata) : Nat :=
  stringLen 1 m.id + stringLen 2 m.hash + optionalStringLen 3 m.contentType +
    scalarLen 4 m.size.toInt + stringLen 5 m.ownerId + stringLen 6 m.publicKey +
    optionalStringLen 7 m.metadata + stringLen 8 m.createdAt + optionalStringLen 9 m.deletedAt

/-- `message Blob`. -/
def ProtoBlob.encodedLen (blob : ProtoBlob) : Nat :=
  blob.metadata.elim 0 (fun m => delimitedLen 1 m.encodedLen) + bytesLen 2 blob.content.length

def FetchBlobRequest.encodedLen (request : FetchBlobRequest) : Nat :=
  stringLen 1 request.blobId + stringLen 2 request.peerId +
    scalarLen 3 request.includeContent.toNat

/-- `message SyncRequest` with this `request_type`. -/
def RequestType.encodedLen : RequestType → Nat
  | .announce metadata =>
      delimitedLen 1 (metadata.elim 0 (fun m => delimitedLen 1 m.encodedLen))
  | .fetch request => delimitedLen 2 request.encodedLen
  | .delete blobId => delimitedLen 3 (stringLen 1 blobId)
  | .status blobId => delimitedLen 4 (stringLen 1 blobId)
  | .nodeInfo => delimitedLen 5 0
  | .handshake nodeId nodeUrl => delimitedLen 6 (stringLen 1 nodeId + stringLen 2 nodeUrl)

/-- The text of the column `sync_status`. -/
def Status.text : Status → String
  | .pending => "pending"
  | .completed => "completed"
  | .failed => "failed"

def PeerSyncStatus.encodedLen (s : PeerSyncStatus) : Nat :=
  stringLen 1 s.peerId + stringLen 2 s.blobId + stringLen 3 s.status.text +
    optionalStringLen 4 s.lastSyncAttempt + optionalStringLen 5 s.lastSuccessfulSync

def NodeInfoResponse.encodedLen (info : NodeInfoResponse) : Nat :=
  stringLen 1 info.nodeId + scalarLen 2 info.blobCount + scalarLen 3 info.storageUsed +
    (info.capabilities.map (fun s => delimitedLen 4 (utf8 s).length)).sum

/-- The number of an `enum SyncStatus`. -/
def SyncStatus.number : SyncStatus → Int
  | .unspecified => 0
  | .success => 1
  | .error => 2
  | .notFound => 3
  | .alreadyExists => 4
  | .unauthorized => 5

/-- The number of an `enum HandshakeStatus`. -/
def HandshakeStatus.number : HandshakeStatus → Int
  | .acknowledged => 0
  | .declined => 1

/-- The field of `oneof response_data`. -/
def ResponseData.encodedLen : ResponseData → Nat
  | .announce accepted => delimitedLen 3 (scalarLen 1 accepted.toNat)
  | .fetch blob => delimitedLen 4 (blob.elim 0 (fun b => delimitedLen 1 b.encodedLen))
  | .delete deleted => delimitedLen 5 (scalarLen 1 deleted.toNat)
  | .statusResp peerStatuses =>
      delimitedLen 6 (peerStatuses.map (fun s => delimitedLen 1 s.encodedLen)).sum
  | .nodeInfo info => delimitedLen 7 info.encodedLen
  | .handshake status peerId =>
      delimitedLen 8 (scalarLen 1 status.number + optionalStringLen 2 peerId)

def SyncResponse.encodedLen (response : SyncResponse) : Nat :=
  scalarLen 1 response.status.number + stringLen 2 response.message +
    response.responseData.elim 0 ResponseData.encodedLen

/-! ## What is decoded -/

/-- What tonic decodes at most, unless it is told otherwise. -/
def decodingLimit : Nat := 4 * 1024 * 1024

/-- The server decodes the request. -/
def RequestType.fits (request : RequestType) : Bool := decide (request.encodedLen ≤ decodingLimit)

/-- The client decodes the response. -/
def SyncResponse.fits (response : SyncResponse) : Bool :=
  decide (response.encodedLen ≤ decodingLimit)

/-- How tonic refuses a response. -/
def SyncResponse.tooLarge (response : SyncResponse) : GrpcStatus :=
  .outOfRange ("Error, decoded message length too large: found " ++ toString response.encodedLen ++
    " bytes, the limit is: " ++ toString decodingLimit ++ " bytes")

/-- What the client gets of what the server has replied. -/
def received : RpcReply → RpcReply
  | .error status => .error status
  | .ok response => if response.fits then .ok response else .error response.tooLarge

/-- The client decodes the reply, or there is nothing to decode. -/
def RpcReply.fits : RpcReply → Bool
  | .error _ => true
  | .ok response => response.fits

theorem received_of_fits {reply : RpcReply} (h : RpcReply.fits reply = true) :
    received reply = reply := by
  cases reply with
  | error status => rfl
  | ok response => exact if_pos h

theorem received_of_not_fits {reply : RpcReply} (h : RpcReply.fits reply = false) :
    ∃ response, reply = .ok response ∧ received reply = .error response.tooLarge := by
  cases reply with
  | error status => cases h
  | ok response => exact ⟨response, rfl, if_neg (ne_true_of_eq_false h)⟩

/-- A node whose id is that long cannot be met. -/
theorem handshakeReply_not_fits {config : P2PConfig}
    (h : decodingLimit ≤ (utf8 config.nodeId).length) :
    (handshakeReply config).fits = false := by
  have hid : (utf8 config.nodeId).length < optionalStringLen 2 (some config.nodeId) :=
    lt_delimitedLen _ _
  have hdata : optionalStringLen 2 (some config.nodeId) ≤
      (ResponseData.handshake .acknowledged (some config.nodeId)).encodedLen :=
    (Nat.le_add_left _ _).trans (lt_delimitedLen _ _).le
  refine decide_eq_false (Nat.not_le.2 ?_)
  calc decodingLimit
    _ ≤ (utf8 config.nodeId).length := h
    _ < optionalStringLen 2 (some config.nodeId) := hid
    _ ≤ (ResponseData.handshake .acknowledged (some config.nodeId)).encodedLen := hdata
    _ ≤ (handshakeReply config).encodedLen := Nat.le_add_left _ _

end DaConcept.Node
