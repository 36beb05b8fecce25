import Hlk7621.Lib.Allotment
import Hlk7621.Lib.Buffer
import Hlk7621.Lib.Bytes
import Hlk7621.Lib.CString
import Hlk7621.Lib.Crc
import Hlk7621.Lib.Cursor
import Hlk7621.Lib.Flash
import Hlk7621.Lib.Masks
import Hlk7621.Lib.Runs
import Hlk7621.Lib.Scan
import Hlk7621.Lib.StablePartition
import Hlk7621.Lib.Storing
import Hlk7621.Lwip.HttpAnswer
import Hlk7621.Lwip.HttpClient
import Hlk7621.Lwip.HttpTransfer
import Hlk7621.Lwip.Ip4Addr
import Hlk7621.Lwip.Tftp
import Hlk7621.Lwip.TftpClient
import Hlk7621.Lwip.TftpOptions
import Hlk7621.Lwip.TftpRefusal
import Hlk7621.Lwip.TftpTransfer
import Hlk7621.Lwip.Wget
import Hlk7621.Shell.Ipcalc
import Hlk7621.Shell.Ipv4
import Hlk7621.UBoot.Crc32
import Hlk7621.UBoot.Cread
import Hlk7621.UBoot.CreadEditor
import Hlk7621.UBoot.CreadHistory
import Hlk7621.UBoot.CreadLines
import Hlk7621.UBoot.Fdt
import Hlk7621.UBoot.FdtRegion
import Hlk7621.UBoot.Fifo
import Hlk7621.UBoot.Image
import Hlk7621.UBoot.Membuf
import Hlk7621.UBoot.Memmove
import Hlk7621.UBoot.MtkImage
import Hlk7621.UBoot.Readline
import Hlk7621.UBoot.SfUpdate
import Hlk7621.UBoot.SpiChip
import Hlk7621.UBoot.SpiNor
import Hlk7621.UBoot.SpiNorFaults
import Hlk7621.UBoot.SpiNorRest
import Hlk7621.UBoot.SpiNorRuns
import Hlk7621.UBoot.SpiTransfer
import Hlk7621.UBoot.Strto
import Hlk7621.Webflash.Answered
import Hlk7621.Webflash.ArraySearch
import Hlk7621.Webflash.Closing
import Hlk7621.Webflash.Completion
import Hlk7621.Webflash.Confinement
import Hlk7621.Webflash.Eeprom
import Hlk7621.Webflash.EnvEdits
import Hlk7621.Webflash.EnvForm
import Hlk7621.Webflash.Exclusion
import Hlk7621.Webflash.Failure
import Hlk7621.Webflash.FlashJobs
import Hlk7621.Webflash.Footprint
import Hlk7621.Webflash.Forms
import Hlk7621.Webflash.Frame
import Hlk7621.Webflash.Fwtool
import Hlk7621.Webflash.Handlers
import Hlk7621.Webflash.Isolation
import Hlk7621.Webflash.Job
import Hlk7621.Webflash.JobMoves
import Hlk7621.Webflash.Layout
import Hlk7621.Webflash.Moves
import Hlk7621.Webflash.Nor
import Hlk7621.Webflash.Numbers
import Hlk7621.Webflash.Overlay
import Hlk7621.Webflash.PlainScan
import Hlk7621.Webflash.Progress
import Hlk7621.Webflash.Receive
import Hlk7621.Webflash.Reply
import Hlk7621.Webflash.Request
import Hlk7621.Webflash.Reserved
import Hlk7621.Webflash.Reset
import Hlk7621.Webflash.Segments
import Hlk7621.Webflash.Server
import Hlk7621.Webflash.Sources
import Hlk7621.Webflash.Streaming
import Hlk7621.Webflash.Types
import Hlk7621.Webflash.Untimed
import Hlk7621.Webflash.Upload
import Hlk7621.Webflash.Uploads
import Hlk7621.Webflash.ValidUploads
import Hlk7621.Webflash.Validate
import Hlk7621.Webflash.Verified
import Hlk7621.Webflash.Views
import Hlk7621.Bmt.Accesses
import Hlk7621.Bmt.Bbt
import Hlk7621.Bmt.BbtRemap
import Hlk7621.Bmt.Copy
import Hlk7621.Bmt.Layer
import Hlk7621.Bmt.Plain
import Hlk7621.Bmt.Reboot
import Hlk7621.Bmt.Refinement
import Hlk7621.Bmt.V2
import Hlk7621.Env.Agreement
import Hlk7621.Env.Commands
import Hlk7621.Env.Complete
import Hlk7621.Env.Crlf
import Hlk7621.Env.Export
import Hlk7621.Env.FiniteMap
import Hlk7621.Env.FlashAccess
import Hlk7621.Env.Fwenv
import Hlk7621.Env.Hashtable
import Hlk7621.Env.Linear
import Hlk7621.Env.ParseLoop
import Hlk7621.Env.PowerCuts
import Hlk7621.Env.Readers
import Hlk7621.Env.Redundant
import Hlk7621.Env.Rejections
import Hlk7621.Env.RoundTrip
import Hlk7621.Env.Saving
import Hlk7621.Env.Selective
import Hlk7621.Env.Set
import Hlk7621.Env.Setting
import Hlk7621.Lib.GoodBlocks
import Hlk7621.Lib.Probing
import Hlk7621.Lib.Regions
import Hlk7621.Memory.AddRegion
import Hlk7621.Memory.Allocation
import Hlk7621.Memory.Canonical
import Hlk7621.Memory.FreeRegion
import Hlk7621.Memory.FreeSize
import Hlk7621.Memory.Grants
import Hlk7621.Memory.Lmb
import Hlk7621.Memory.Reservations
import Hlk7621.Memory.Search
import Hlk7621.Mtd.Dumps
import Hlk7621.Mtd.Filling
import Hlk7621.Mtd.Firmware
import Hlk7621.Mtd.Fis
import Hlk7621.Mtd.Fit
import Hlk7621.Mtd.Jffs2
import Hlk7621.Mtd.Jffs2Layout
import Hlk7621.Mtd.Jffs2Output
import Hlk7621.Mtd.Jffs2Pack
import Hlk7621.Mtd.Jffs2Readable
import Hlk7621.Mtd.Jffs2Scan
import Hlk7621.Mtd.Overlay
import Hlk7621.Mtd.Placement
import Hlk7621.Mtd.Spill
import Hlk7621.Mtd.Split
import Hlk7621.Mtd.Tool
import Hlk7621.Mtd.Turns
import Hlk7621.Nmbm.Attach
import Hlk7621.Nmbm.Chip
import Hlk7621.Nmbm.Layout
import Hlk7621.Nmbm.LoadBounds
import Hlk7621.Nmbm.Loading
import Hlk7621.Nmbm.Roles
import Hlk7621.Nmbm.Tables
import Hlk7621.Nmbm.Touches
import Hlk7621.Nmbm.UpdateLoop
