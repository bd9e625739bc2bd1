import Chiptune.Album.Rom

/-!
# Albums

An album is the content of a GBS file: its header and its ROM image.
-/
namespace Chiptune

structure Album where
  header : Album.Header
  rom : Album.Rom

namespace Album

def ofBytes (data : ByteArray) : Except AlbumError Album := do
  let header ← Header.parse data
  let rom ← Rom.cut (data.extract Header.size data.size) header.loadAddress.toNat
  return { header, rom }

end Album
end Chiptune
